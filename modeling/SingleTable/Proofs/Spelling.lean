import Mathlib.Data.List.TakeWhile
import Mathlib.Tactic.ByContra
import SingleTable.KeyCondition.Token
import SingleTable.Proofs.Outcome

set_option autoImplicit false

/-!
# How tokens are spelled

A text spells its tokens one after the other, with any blanks before, between and after them; blanks
are needed only where a token would take in the character that follows it. Scanning finds exactly the
tokens that a text spells (`Token.scan_eq_ok_iff`).
-/

namespace SingleTable

/-! ## Letter case -/

/-- Whatever is no capital letter stays as it is in small letters. -/
theorem toLower_eq_self {c : Char} (h : c.isUpper = false) : c.toLower = c := by
  unfold Char.toLower
  split
  · rename_i hc
    exact absurd hc (of_decide_eq_false h)
  · rfl

theorem isAlpha_of_isUpper {c : Char} (h : c.isUpper = true) : c.isAlpha = true := by
  show (c.isUpper || c.isLower) = true
  rw [h, Bool.true_or]

theorem startsName_of_toLower {c : Char} (h : startsName c.toLower = true) : startsName c = true := by
  cases hc : c.isUpper with
  | true => simp [startsName, isAlpha_of_isUpper hc]
  | false => rwa [toLower_eq_self hc] at h

theorem isNameChar_of_toLower {c : Char} (h : isNameChar c.toLower = true) : isNameChar c = true := by
  cases hc : c.isUpper with
  | true => simp [isNameChar, Char.isAlphanum, isAlpha_of_isUpper hc]
  | false => rwa [toLower_eq_self hc] at h

namespace Token

/-! ## Single tokens -/

/-- The characters of a sign. -/
def sign? : Token → Option (List Char)
  | .equal => some ['=']
  | .less => some ['<']
  | .atMost => some ['<', '=']
  | .greater => some ['>']
  | .atLeast => some ['>', '=']
  | .comma => some [',']
  | .leftBracket => some ['(']
  | .rightBracket => some [')']
  | _ => none

/-- The word of a keyword, in small letters. -/
def keyword? : Token → Option String
  | .and => some "and"
  | .between => some "between"
  | .beginsWith => some "begins_with"
  | _ => none

/-- A word in small letters. -/
def lowered (w : List Char) : String := String.ofList (w.map Char.toLower)

/-- The characters spell the token: a sign; a keyword in any letter case; a name, which is no keyword;
or a placeholder after its colon. -/
inductive Spells : Token → List Char → Prop
  | sign {t : Token} {w : List Char} (h : t.sign? = some w) : Spells t w
  | keyword {t : Token} {w : List Char} (h : t.keyword? = some (lowered w)) : Spells t w
  | name {c : Char} {w : List Char} (hc : startsName c = true) (hw : ∀ d ∈ w, isNameChar d = true)
      (hk : ∀ t : Token, t.keyword? ≠ some (lowered (c :: w))) :
      Spells (.name (String.ofList (c :: w))) (c :: w)
  | placeholder {w : List Char} (hne : w ≠ []) (hw : ∀ d ∈ w, isNameChar d = true) :
      Spells (.placeholder (String.ofList w)) (':' :: w)

/-- Whether a character right after the token would be read as part of it. -/
def takesIn (t : Token) (c : Char) : Bool :=
  match t.sign? with
  | none => isNameChar c
  | some _ => (t == .less || t == .greater) && c == '='

/-- The token ends where the text `rest` begins. -/
def Ends (t : Token) (rest : List Char) : Prop := ∀ c ∈ rest.head?, t.takesIn c = false

theorem takesIn_of_sign?_eq_none {t : Token} (h : t.sign? = none) (c : Char) :
    t.takesIn c = isNameChar c := by
  rw [takesIn, h]

/-! ## Words -/

theorem exists_cons_of_keyword {t : Token} {k : String} (h : t.keyword? = some k) :
    ∃ c w, k.toList = c :: w ∧ startsName c = true ∧ w.all isNameChar = true := by
  cases t <;> cases h
  all_goals exact ⟨_, _, rfl, rfl, rfl⟩

/-- A keyword is written in the characters of names. -/
theorem exists_word_of_keyword {t : Token} {w : List Char} (h : t.keyword? = some (lowered w)) :
    ∃ c rest, w = c :: rest ∧ startsName c = true ∧ ∀ d ∈ rest, isNameChar d = true := by
  obtain ⟨c, rest, hw, hc, hrest⟩ := exists_cons_of_keyword h
  rw [lowered, String.toList_ofList] at hw
  obtain ⟨c, rest, rfl, rfl, rfl⟩ := List.map_eq_cons_iff.mp hw
  refine ⟨c, rest, rfl, startsName_of_toLower hc, fun d hd => isNameChar_of_toLower ?_⟩
  exact List.all_eq_true.mp hrest _ (List.mem_map_of_mem hd)

theorem ofWord_eq (w : List Char) :
    ofWord w = if lowered w = "and" then .and else if lowered w = "between" then .between
      else if lowered w = "begins_with" then .beginsWith else .name (String.ofList w) := rfl

theorem ofWord_of_keyword {t : Token} {w : List Char} (h : t.keyword? = some (lowered w)) :
    ofWord w = t := by
  rw [ofWord_eq]
  cases t with
  | and => rw [if_pos (Option.some.inj h).symm]
  | between => rw [← Option.some.inj h, if_neg (by decide), if_pos rfl]
  | beginsWith => rw [← Option.some.inj h, if_neg (by decide), if_neg (by decide), if_pos rfl]
  | _ => cases h

theorem ofWord_of_not_keyword {w : List Char} (h : ∀ t : Token, t.keyword? ≠ some (lowered w)) :
    ofWord w = .name (String.ofList w) := by
  have hne : ∀ (t : Token) k, t.keyword? = some k → ¬ lowered w = k :=
    fun t k ht hk => h t (hk ▸ ht)
  rw [ofWord_eq, if_neg (hne .and _ rfl), if_neg (hne .between _ rfl),
    if_neg (hne .beginsWith _ rfl)]

theorem sign?_ofWord (w : List Char) : (ofWord w).sign? = none := by
  rw [ofWord_eq]
  repeat' split
  all_goals rfl

/-- A word spells its token. -/
theorem spells_ofWord {c : Char} {w : List Char} (hc : startsName c = true)
    (hw : ∀ d ∈ w, isNameChar d = true) : (ofWord (c :: w)).Spells (c :: w) := by
  by_cases hk : ∃ t : Token, t.keyword? = some (lowered (c :: w))
  · obtain ⟨t, ht⟩ := hk
    rw [ofWord_of_keyword ht]
    exact .keyword ht
  · have hnone := not_exists.mp hk
    rw [ofWord_of_not_keyword hnone]
    exact .name hc hw hnone

theorem spells_of_word {text : String} {t : Token} {c : Char} {w : List Char}
    (h : text.toList = c :: w) (hc : startsName c = true) (hw : w.all isNameChar = true)
    (ht : ofWord (c :: w) = t) : t.Spells text.toList := by
  rw [h, ← ht]
  exact spells_ofWord hc (List.all_eq_true.mp hw)

/-! ## Runs of characters -/

theorem takeWhile_append_of_stop {α : Type} {p : α → Bool} {w rest : List α}
    (hw : ∀ d ∈ w, p d = true) (hr : ∀ c ∈ rest.head?, p c = false) :
    (w ++ rest).takeWhile p = w := by
  rw [List.takeWhile_append_of_pos hw]
  cases rest with
  | nil => simp
  | cons c rest =>
      have hc := hr c rfl
      simp [hc]

theorem dropWhile_append_of_stop {α : Type} {p : α → Bool} {w rest : List α}
    (hw : ∀ d ∈ w, p d = true) (hr : ∀ c ∈ rest.head?, p c = false) :
    (w ++ rest).dropWhile p = rest := by
  rw [List.dropWhile_append_of_pos hw]
  cases rest with
  | nil => rfl
  | cons c rest =>
      have hc := hr c rfl
      simp [hc]

theorem forall_head?_dropWhile {α : Type} (p : α → Bool) (xs : List α) :
    ∀ c ∈ (xs.dropWhile p).head?, p c = false := by
  intro c hc
  have h := List.head?_dropWhile_not p xs
  rw [Option.mem_def.mp hc] at h
  simpa using h

theorem forall_mem_takeWhile {α : Type} (p : α → Bool) (xs : List α) :
    ∀ d ∈ xs.takeWhile p, p d = true :=
  List.all_eq_true.mp List.all_takeWhile

/-! ## One token at a time -/

/-- A character that starts a name is none of the characters that start other tokens. -/
theorem ne_of_startsName {c : Char} (h : startsName c = true) :
    c ≠ ':' ∧ c ≠ '=' ∧ c ≠ ',' ∧ c ≠ '(' ∧ c ≠ ')' ∧ c ≠ '<' ∧ c ≠ '>' := by
  refine ⟨?_, ?_, ?_, ?_, ?_, ?_, ?_⟩
  all_goals
    rintro rfl
    revert h
    decide

theorem next_of_word {c : Char} (hc : startsName c = true) (rest : List Char) :
    next c rest = .ok (ofWord (c :: rest.takeWhile isNameChar), rest.dropWhile isNameChar) := by
  obtain ⟨h1, h2, h3, h4, h5, h6, h7⟩ := ne_of_startsName hc
  simp only [next, h1, h2, h3, h4, h5, h6, h7, if_false, if_pos hc]

theorem orEqual_of_ends {bare withEqual : Token} {rest : List Char} (h : '=' ∉ rest.head?) :
    orEqual bare withEqual rest = (bare, rest) := by
  unfold orEqual
  split
  · exact absurd rfl h
  · rfl

theorem next_of_ends {c : Char} {w rest : List Char} (hc : startsName c = true)
    (hw : ∀ d ∈ w, isNameChar d = true) (hend : (ofWord (c :: w)).Ends rest) :
    next c (w ++ rest) = .ok (ofWord (c :: w), rest) := by
  have hstop : ∀ d ∈ rest.head?, isNameChar d = false := by
    intro d hd
    rw [← takesIn_of_sign?_eq_none (sign?_ofWord (c :: w))]
    exact hend d hd
  rw [next_of_word hc, takeWhile_append_of_stop hw hstop, dropWhile_append_of_stop hw hstop]

/-- The token that is read first is the one that is spelled there and ends there. -/
theorem next_of_spells {t : Token} {c : Char} {w rest : List Char} (h : t.Spells (c :: w))
    (hend : t.Ends rest) : next c (w ++ rest) = .ok (t, rest) := by
  cases h with
  | keyword h =>
      obtain ⟨_, _, hcons, hc, hw⟩ := exists_word_of_keyword h
      obtain ⟨rfl, rfl⟩ := List.cons.inj hcons
      have ht := ofWord_of_keyword h
      rw [next_of_ends hc hw (ht.symm ▸ hend), ht]
  | name hc hw hk =>
      have ht := ofWord_of_not_keyword hk
      rw [next_of_ends hc hw (ht.symm ▸ hend), ht]
  | placeholder hne hw =>
      have hstop : ∀ d ∈ rest.head?, isNameChar d = false := hend
      show (if ((w ++ rest).takeWhile isNameChar).isEmpty then _ else _) = _
      rw [takeWhile_append_of_stop hw hstop, dropWhile_append_of_stop hw hstop,
        if_neg (by simpa using hne)]
  | sign h =>
      have hbare : (t = .less ∨ t = .greater) → '=' ∉ rest.head? := by
        intro ht hmem
        have htake := hend '=' hmem
        rcases ht with rfl | rfl <;> cases htake
      cases t with
      | less =>
          cases h
          exact congrArg Except.ok (orEqual_of_ends (hbare (Or.inl rfl)))
      | greater =>
          cases h
          exact congrArg Except.ok (orEqual_of_ends (hbare (Or.inr rfl)))
      | _ =>
          cases h
          try rfl

theorem orEqual_eq_iff {bare withEqual t : Token} {rest after : List Char}
    (h : orEqual bare withEqual rest = (t, after)) :
    (t = withEqual ∧ rest = '=' :: after) ∨ (t = bare ∧ rest = after ∧ '=' ∉ after.head?) := by
  unfold orEqual at h
  split at h
  · cases h
    exact Or.inl ⟨rfl, rfl⟩
  · rename_i hne
    cases h
    refine Or.inr ⟨rfl, rfl, ?_⟩
    intro hmem
    obtain ⟨tail, rfl⟩ := List.head?_eq_some_iff.mp hmem
    exact hne tail rfl

/-- A sign of one character that takes in nothing is spelled and ends. -/
theorem spells_of_sign {t : Token} {c : Char} (h : t.sign? = some [c]) (hless : t ≠ .less)
    (hgreater : t ≠ .greater) (rest : List Char) :
    ∃ w, rest = w ++ rest ∧ t.Spells (c :: w) ∧ t.Ends rest := by
  refine ⟨[], rfl, .sign h, fun d _ => ?_⟩
  simp [takesIn, h, hless, hgreater]

/-- A sign that may take in a sign of equality is spelled and ends, whether it does or not. -/
theorem spells_of_orEqual {bare withEqual t : Token} {c : Char} {rest after : List Char}
    (hbare : bare.sign? = some [c]) (hwith : withEqual.sign? = some [c, '='])
    (hless : withEqual ≠ .less) (hgreater : withEqual ≠ .greater)
    (h : orEqual bare withEqual rest = (t, after)) :
    ∃ w, rest = w ++ after ∧ t.Spells (c :: w) ∧ t.Ends after := by
  rcases orEqual_eq_iff h with ⟨rfl, hrest⟩ | ⟨rfl, hrest, hno⟩
  · refine ⟨['='], hrest, .sign hwith, fun d _ => ?_⟩
    simp [takesIn, hwith, hless, hgreater]
  · refine ⟨[], hrest, .sign hbare, fun d hd => ?_⟩
    have hdne : d ≠ '=' := fun heq => hno (heq ▸ hd)
    simp [takesIn, hbare, hdne]

/-- Whatever token is read first is spelled there and ends there. -/
theorem spells_of_next {t : Token} {c : Char} {rest after : List Char}
    (h : next c rest = .ok (t, after)) :
    ∃ w, rest = w ++ after ∧ t.Spells (c :: w) ∧ t.Ends after := by
  have hsplit : rest = rest.takeWhile isNameChar ++ rest.dropWhile isNameChar :=
    List.takeWhile_append_dropWhile.symm
  have hstop := forall_head?_dropWhile isNameChar rest
  have hrun := forall_mem_takeWhile isNameChar rest
  -- the cases are those of the first character, in the order in which it is tested
  unfold next at h
  split at h
  · rename_i hc
    subst hc
    dsimp only at h
    split at h
    · cases h
    · rename_i hne
      cases h
      exact ⟨_, hsplit, .placeholder (by simpa using hne) hrun, hstop⟩
  split at h
  · rename_i hc
    subst hc
    cases h
    exact spells_of_sign (t := .equal) rfl nofun nofun rest
  split at h
  · rename_i hc
    subst hc
    cases h
    exact spells_of_sign (t := .comma) rfl nofun nofun rest
  split at h
  · rename_i hc
    subst hc
    cases h
    exact spells_of_sign (t := .leftBracket) rfl nofun nofun rest
  split at h
  · rename_i hc
    subst hc
    cases h
    exact spells_of_sign (t := .rightBracket) rfl nofun nofun rest
  split at h
  · rename_i hc
    subst hc
    exact @spells_of_orEqual .less .atMost _ _ _ _ rfl rfl nofun nofun (Except.ok.inj h)
  split at h
  · rename_i hc
    subst hc
    exact @spells_of_orEqual .greater .atLeast _ _ _ _ rfl rfl nofun nofun (Except.ok.inj h)
  split at h
  · rename_i hc
    cases h
    refine ⟨_, hsplit, spells_ofWord hc hrun, ?_⟩
    intro d hd
    rw [takesIn_of_sign?_eq_none (sign?_ofWord _)]
    exact hstop d hd
  · cases h

/-! ## Whole texts -/

/-- The text spells the tokens one after the other, with blanks anywhere but inside a token. -/
inductive Spelling : List Char → List Token → Prop
  | blanks {g : List Char} (hg : ∀ c ∈ g, isBlank c = true) : Spelling g []
  | token {g w rest : List Char} {t : Token} {ts : List Token} (hg : ∀ c ∈ g, isBlank c = true)
      (ht : t.Spells w) (hend : t.Ends rest) (h : Spelling rest ts) :
      Spelling (g ++ (w ++ rest)) (t :: ts)

theorem scanChars_of_blanks {cs : List Char} (h : cs.dropWhile isBlank = []) :
    scanChars cs = .ok [] := by
  rw [scanChars]
  split
  · rfl
  · rename_i hcs
    rw [h] at hcs
    cases hcs

theorem scanChars_of_next {cs : List Char} {c : Char} {rest : List Char}
    (h : cs.dropWhile isBlank = c :: rest) :
    scanChars cs = (next c rest).bind (fun a => (scanChars a.2).map (a.1 :: ·)) := by
  rw [scanChars]
  split
  · rename_i hcs
    rw [h] at hcs
    cases hcs
  · rename_i hcs
    rw [h] at hcs
    cases hcs
    split
    · rename_i hn
      rw [hn]
      rfl
    · rename_i hn
      rw [hn]
      rfl

theorem isBlank_of_startsName {c : Char} (h : startsName c = true) : isBlank c = false := by
  by_contra hblank
  simp only [isBlank, Bool.not_eq_false, Bool.or_eq_true, beq_iff_eq] at hblank
  rcases hblank with (((rfl | rfl) | rfl) | rfl) | rfl
  all_goals
    revert h
    decide

/-- The first character of a token is no blank. -/
theorem Spells.exists_cons {t : Token} {w : List Char} (h : t.Spells w) :
    ∃ c rest, w = c :: rest ∧ isBlank c = false := by
  cases h with
  | keyword h =>
      obtain ⟨c, rest, hw, hc, -⟩ := exists_word_of_keyword h
      exact ⟨c, rest, hw, isBlank_of_startsName hc⟩
  | name hc hw hk => exact ⟨_, _, rfl, isBlank_of_startsName hc⟩
  | placeholder hne hw => exact ⟨':', _, rfl, rfl⟩
  | sign h =>
      cases t <;> cases h
      all_goals exact ⟨_, _, rfl, rfl⟩

theorem Spelling.scanChars {cs : List Char} {ts : List Token} (h : Spelling cs ts) :
    scanChars cs = .ok ts := by
  induction h with
  | blanks hg => exact scanChars_of_blanks (List.dropWhile_eq_nil_iff.mpr hg)
  | token hg ht hend h ih =>
      rename_i g w rest t ts
      obtain ⟨c, w, rfl, hc⟩ := ht.exists_cons
      have hskip : (g ++ (c :: w ++ rest)).dropWhile isBlank = c :: (w ++ rest) := by
        refine dropWhile_append_of_stop hg ?_
        rintro d hd
        cases hd
        exact hc
      rw [scanChars_of_next hskip, next_of_spells ht hend]
      show (Token.scanChars rest).map (t :: ·) = _
      rw [ih]
      rfl

theorem spelling_of_scanChars (cs : List Char) {ts : List Token} (h : scanChars cs = .ok ts) :
    Spelling cs ts := by
  have hsplit : cs = cs.takeWhile isBlank ++ cs.dropWhile isBlank :=
    List.takeWhile_append_dropWhile.symm
  have hrun := forall_mem_takeWhile isBlank cs
  cases hcs : cs.dropWhile isBlank with
  | nil =>
      rw [scanChars_of_blanks hcs] at h
      cases h
      rw [hsplit, hcs, List.append_nil]
      exact .blanks hrun
  | cons c rest =>
      rw [scanChars_of_next hcs] at h
      obtain ⟨⟨t, after⟩, hn, h⟩ := bind_eq_ok_iff.mp h
      obtain ⟨us, hus, hts⟩ := map_eq_ok_iff.mp h
      cases hts
      obtain ⟨w, rfl, ht, hend⟩ := spells_of_next hn
      -- the text after the token is shorter
      have hlength : after.length < cs.length := by
        have h1 := congrArg List.length hsplit
        rw [hcs, List.length_append, List.length_cons, List.length_append] at h1
        omega
      rw [hsplit, hcs]
      exact .token hrun ht hend (spelling_of_scanChars after hus)
termination_by cs.length

/-- Scanning finds exactly the tokens that a text spells. -/
theorem scan_eq_ok_iff {text : String} {ts : List Token} :
    scan text = .ok ts ↔ Spelling text.toList ts :=
  ⟨spelling_of_scanChars text.toList, Spelling.scanChars⟩

/-! ## Joining spellings -/

theorem Ends.of_head {t : Token} {c : Char} (h : t.takesIn c = false) (rest : List Char) :
    t.Ends (c :: rest) := by
  intro d hd
  cases hd
  exact h

theorem Ends.of_blank {t : Token} {c : Char} (hc : isBlank c = true) (rest : List Char) :
    t.Ends (c :: rest) := by
  have hname : isNameChar c = false ∧ (c == '=') = false := by
    simp only [isBlank, Bool.or_eq_true, beq_iff_eq] at hc
    rcases hc with (((rfl | rfl) | rfl) | rfl) | rfl <;> decide
  refine .of_head ?_ rest
  unfold takesIn
  split
  · exact hname.1
  · rw [hname.2, Bool.and_false]

theorem Spelling.blanks_append {g cs : List Char} {ts : List Token} (hg : ∀ c ∈ g, isBlank c = true)
    (h : Spelling cs ts) : Spelling (g ++ cs) ts := by
  cases h with
  | blanks hcs => exact .blanks (List.forall_mem_append.mpr ⟨hg, hcs⟩)
  | token hg' ht hend h =>
      rw [← List.append_assoc]
      exact .token (List.forall_mem_append.mpr ⟨hg, hg'⟩) ht hend h

theorem Spelling.after_space {cs : List Char} {ts : List Token} (h : Spelling cs ts) :
    Spelling (' ' :: cs) ts := by
  have hblank : ∀ c ∈ [' '], isBlank c = true := by
    intro c hc
    rw [List.mem_singleton.mp hc]
    rfl
  exact h.blanks_append hblank

/-- A text that starts with a blank can follow any other text. -/
theorem Spelling.append {cs ds : List Char} {ts us : List Token} {c : Char} (h : Spelling cs ts)
    (hc : isBlank c = true) (h' : Spelling (c :: ds) us) :
    Spelling (cs ++ c :: ds) (ts ++ us) := by
  induction h with
  | blanks hg => exact h'.blanks_append hg
  | token hg ht hend h ih =>
      rename_i g w rest t ts
      have hend' : t.Ends (rest ++ c :: ds) := by
        cases rest with
        | nil => exact .of_blank hc ds
        | cons d rest => exact hend
      rw [List.append_assoc, List.append_assoc]
      exact .token hg ht hend' ih

/-- One more token in front of a text. -/
theorem Spells.adjoin {w rest : List Char} {t : Token} {ts : List Token} (ht : t.Spells w)
    (hend : t.Ends rest) (h : Spelling rest ts) : Spelling (w ++ rest) (t :: ts) := by
  have hnone : ∀ c ∈ ([] : List Char), isBlank c = true := nofun
  exact .token hnone ht hend h

theorem Spells.spelling {t : Token} {w : List Char} (h : t.Spells w) : Spelling w [t] := by
  have hend : t.Ends [] := nofun
  have hw := h.adjoin hend (.blanks nofun)
  rw [List.append_nil] at hw
  exact hw

/-- One more token after a blank. -/
theorem Spelling.space {cs w : List Char} {ts : List Token} {t : Token} (h : Spelling cs ts)
    (ht : t.Spells w) : Spelling (cs ++ ' ' :: w) (ts ++ [t]) :=
  h.append rfl ht.spelling.after_space

end Token

end SingleTable
