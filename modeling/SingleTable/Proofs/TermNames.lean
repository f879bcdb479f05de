import SingleTable.Proofs.CompiledQuery

set_option autoImplicit false

/-!
# The names in a key condition

A key condition speaks of attributes only whose names can be spelled: a keyword, or a name with other
characters than those of names, cannot stand in any text (`Term.isName_of_ofText`). What a text says
after a condition that is spelled out are further conditions (`Term.exists_rest_of_ofText`).
-/

namespace SingleTable

/-! ## Name tokens -/

namespace Token

theorem isName_of_spells {n : String} {w : List Char} (h : (Token.name n).Spells w) : IsName n := by
  generalize ht : Token.name n = t at h
  cases h with
  | sign h =>
      subst ht
      cases h
  | keyword h =>
      subst ht
      cases h
  | name hc hw hk =>
      cases ht
      rw [IsName, String.toList_ofList]
      exact .name hc hw hk
  | placeholder hne hw => cases ht

/-- The name tokens of a text are names. -/
theorem Spelling.isName {cs : List Char} {ts : List Token} (h : Spelling cs ts) {n : String}
    (hn : .name n ∈ ts) : IsName n := by
  induction h with
  | blanks hg => cases hn
  | token hg ht hend h ih =>
      rcases List.mem_cons.mp hn with rfl | hn
      · exact isName_of_spells ht
      · exact ih hn

/-! ## Texts that go on -/

theorem scanChars_congr {cs ds : List Char} (h : cs.dropWhile isBlank = ds.dropWhile isBlank) :
    scanChars cs = scanChars ds := by
  cases hds : ds.dropWhile isBlank with
  | nil => rw [scanChars_of_blanks (h.trans hds), scanChars_of_blanks hds]
  | cons c rest => rw [scanChars_of_next (h.trans hds), scanChars_of_next hds]

/-- After a text that is spelled out, scanning goes on at the next blank. -/
theorem Spelling.scanChars_append {cs : List Char} {ts : List Token} (h : Spelling cs ts) {c : Char}
    (hc : isBlank c = true) (ds : List Char) :
    Token.scanChars (cs ++ c :: ds) = (Token.scanChars (c :: ds)).map (ts ++ ·) := by
  induction h with
  | blanks hg =>
      rename_i g
      have hskip : (g ++ c :: ds).dropWhile isBlank = (c :: ds).dropWhile isBlank :=
        List.dropWhile_append_of_pos hg
      rw [scanChars_congr hskip]
      cases Token.scanChars (c :: ds) <;> rfl
  | token hg ht hend h ih =>
      rename_i g w rest t ts
      obtain ⟨d, w, rfl, hd⟩ := ht.exists_cons
      have hskip : (g ++ (d :: w ++ rest) ++ c :: ds).dropWhile isBlank
          = d :: (w ++ (rest ++ c :: ds)) := by
        rw [List.append_assoc, List.append_assoc]
        refine dropWhile_append_of_stop hg ?_
        rintro e he
        cases he
        exact hd
      have hend' : t.Ends (rest ++ c :: ds) := by
        cases rest with
        | nil => exact .of_blank hc ds
        | cons e rest => exact hend
      rw [scanChars_of_next hskip, next_of_spells ht hend']
      show (Token.scanChars (rest ++ c :: ds)).map (t :: ·) = _
      rw [ih]
      cases Token.scanChars (c :: ds) <;> rfl

/-- The tokens of a longer text begin with those of a text that is spelled out up to a blank. -/
theorem Spelling.exists_rest {cs ds : List Char} {ts us : List Token} {c : Char} (h : Spelling cs ts)
    (hc : isBlank c = true) (hall : Spelling (cs ++ c :: ds) us) :
    ∃ rest, us = ts ++ rest ∧ Spelling (c :: ds) rest := by
  have hscan := hall.scanChars
  rw [h.scanChars_append hc] at hscan
  obtain ⟨rest, hrest, rfl⟩ := map_eq_ok_iff.mp hscan
  exact ⟨rest, rfl, spelling_of_scanChars _ hrest⟩

end Token

/-! ## The attributes of terms -/

namespace Term

variable {values : Dict AttributeValue} {schema : KeySchema}

/-- The operands of a term. -/
def operands : Term → List Operand
  | .compare left _ right => [left, right]
  | .between subject low high => [subject, low, high]
  | .beginsWith subject start => [subject, start]

theorem Written.name_mem {ts : List Token} {t : Term} (h : Written values ts t) {n : String}
    (hn : .attribute n ∈ t.operands) : .name n ∈ ts := by
  have hword : ∀ {token}, Operand.Written values token (.attribute n) → token = .name n := by
    intro token hw
    cases hw
    rfl
  cases h with
  | compare hl hs hr =>
      simp only [operands, List.mem_cons, List.not_mem_nil, or_false] at hn
      rcases hn with rfl | rfl
      · simp [hword hl]
      · simp [hword hr]
  | between hs ha hb =>
      simp only [operands, List.mem_cons, List.not_mem_nil, or_false] at hn
      rcases hn with rfl | rfl | rfl
      · simp [hword hs]
      · simp [hword ha]
      · simp [hword hb]
  | beginsWith hs hp =>
      simp only [operands, List.mem_cons, List.not_mem_nil, or_false] at hn
      rcases hn with rfl | rfl
      · simp [hword hs]
      · simp [hword hp]

theorem Conjunction.name_mem {ts : List Token} {us : List Term} (h : Conjunction values ts us)
    {t : Term} (ht : t ∈ us) {n : String} (hn : .attribute n ∈ t.operands) : .name n ∈ ts := by
  induction h with
  | term h =>
      rw [List.mem_singleton.mp ht] at hn
      exact h.name_mem hn
  | and h h' ih ih' =>
      rcases List.mem_append.mp ht with ht | ht
      · exact List.mem_append_left _ (ih ht)
      · exact List.mem_append_right _ (List.mem_cons_of_mem _ (ih' ht))
  | brackets h ih => exact List.mem_cons_of_mem _ (List.mem_append_left _ (ih ht))

theorem Conjunction.ne_nil {ts : List Token} {us : List Term} (h : Conjunction values ts us) :
    us ≠ [] := by
  induction h with
  | term h => exact List.cons_ne_nil _ _
  | and h h' ih ih' => exact List.append_ne_nil_of_left_ne_nil ih _
  | brackets h ih => exact ih

/-- Every attribute of which a text speaks has a name that is no keyword. -/
theorem isName_of_ofText {text : String} {us : List Term} (h : ofText values text = .ok us) {t : Term}
    (ht : t ∈ us) {n : String} (hn : .attribute n ∈ t.operands) : IsName n := by
  obtain ⟨ts, hts, hus⟩ := ofText_eq_ok_iff.mp h
  exact hts.isName (hus.conjunction.name_mem ht hn)

theorem Fixes.attribute_mem {t : Term} {v : AttributeValue} (h : t.Fixes schema v) :
    .attribute schema.partition.name ∈ t.operands := by
  cases h <;> simp [operands]

theorem Puts.attribute_mem {t : Term} {cond : SortCondition} (h : t.Puts schema cond)
    {key : KeyAttribute} (hs : schema.sort = some key) : .attribute key.name ∈ t.operands := by
  cases h with
  | left hs' _ | right hs' _ | between hs' _ _ | string hs' _ | binary hs' _ =>
      cases hs.symm.trans hs'
      simp [operands]

/-! ## Terms after a term -/

/-- What a text says after a term that is spelled out and the word `and` are further terms. -/
theorem exists_rest_of_ofText {text : String} {cs ds : List Char} {ts : List Token} {t : Term}
    {us : List Term} (htext : text.toList = cs ++ ' ' :: "and".toList ++ ' ' :: ds)
    (hts : Token.Spelling cs ts) (ht : Written values ts t) (h : ofText values text = .ok us) :
    ∃ rest, us = t :: rest ∧ rest ≠ [] := by
  obtain ⟨all, hall, hread⟩ := bind_eq_ok_iff.mp h
  have hand : Token.Spells .and "and".toList := Token.spells_of_word rfl rfl rfl rfl
  have hspelling := Token.scan_eq_ok_iff.mp hall
  rw [htext] at hspelling
  obtain ⟨more, rfl, -⟩ := (hts.space hand).exists_rest rfl hspelling
  have hfirst := readTerms_of_conjunction (.term ht) 0 (.and :: more)
  rw [List.append_assoc, List.singleton_append] at hread
  rw [hfirst] at hread
  -- the word closes nothing, so the reader goes on with the tokens after it
  obtain ⟨rest, hrest, rfl⟩ := map_eq_ok_iff.mp hread
  exact ⟨rest, rfl, (conjunction_of_readTerms hrest).ne_nil⟩

end Term

end SingleTable
