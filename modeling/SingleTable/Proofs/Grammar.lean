import Mathlib.Data.List.Basic
import SingleTable.Proofs.Conjunction

set_option autoImplicit false

/-!
# The grammar of key conditions

The grammar as it is documented, with its two nonterminals (`Term.Derives`). A text is read exactly if
it spells a sentence of the grammar whose placeholders are all bound, and it is read into the terms of
the sentence, from left to right (`Term.ofText_eq_ok_iff`).

The reader counts the open brackets where the grammar nests. What is read inside some open brackets is
the conjunction of the tokens after as many brackets (`Term.conjunction_of_readTerms`).
-/

namespace SingleTable

namespace Term

variable {values : Dict AttributeValue}

/-! ## Sentences -/

/-- The nonterminals of the grammar that stand for terms. -/
inductive Nonterminal where
  | condition
  | term

/-- The tokens are a sentence of the nonterminal, and the terms stand in it from left to right:

    condition := term ( AND term )*
    term      := operand sign operand | operand BETWEEN operand AND operand
               | begins_with ( operand , operand ) | ( condition )
-/
inductive Derives (values : Dict AttributeValue) : Nonterminal → List Token → List Term → Prop
  | bare {ts : List Token} {t : Term} (h : Written values ts t) : Derives values .term ts [t]
  | brackets {ts : List Token} {us : List Term} (h : Derives values .condition ts us) :
      Derives values .term (.leftBracket :: (ts ++ [.rightBracket])) us
  | last {ts : List Token} {us : List Term} (h : Derives values .term ts us) :
      Derives values .condition ts us
  | and {ts ts' : List Token} {us us' : List Term} (h : Derives values .term ts us)
      (h' : Derives values .condition ts' us') :
      Derives values .condition (ts ++ .and :: ts') (us ++ us')

theorem Derives.conjunction {n : Nonterminal} {ts : List Token} {us : List Term}
    (h : Derives values n ts us) : Conjunction values ts us := by
  induction h with
  | bare h => exact .term h
  | brackets h ih => exact .brackets ih
  | last h ih => exact ih
  | and h h' ih ih' => exact .and ih ih'

/-- Two conditions joined by `AND` are a condition, whatever way they are bracketed. -/
theorem Derives.join {n : Nonterminal} {ts ts' : List Token} {us us' : List Term}
    (h : Derives values n ts us) (h' : Derives values .condition ts' us') :
    Derives values .condition (ts ++ .and :: ts') (us ++ us') := by
  induction h with
  | bare h => exact .and (.bare h) h'
  | brackets h ih => exact .and (.brackets h) h'
  | last h ih => exact ih
  | and h₁ h₂ ih₁ ih₂ =>
      rw [List.append_assoc, List.append_assoc, List.cons_append]
      exact .and h₁ ih₂

/-- A conjunction is a sentence of the grammar, and every sentence is a conjunction. -/
theorem derives_iff_conjunction {ts : List Token} {us : List Term} :
    Derives values .condition ts us ↔ Conjunction values ts us := by
  refine ⟨Derives.conjunction, fun h => ?_⟩
  induction h with
  | term h => exact .last (.bare h)
  | and h h' ih ih' => exact ih.join ih'
  | brackets h ih => exact .last (.brackets ih)

/-! ## What has been read is written there -/

theorem readOperand_eq_ok_iff {ts rest : List Token} {o : Operand} :
    readOperand values ts = .ok (o, rest) ↔ ∃ t, ts = t :: rest ∧ Operand.Written values t o := by
  constructor
  · intro h
    unfold readOperand at h
    split at h
    · cases h
      exact ⟨_, rfl, .name _⟩
    · split at h
      · rename_i hv
        cases h
        exact ⟨_, rfl, .placeholder hv⟩
      · cases h
    · cases h
  · rintro ⟨t, rfl, ht⟩
    exact readOperand_of_written ht rest

theorem expect_eq_ok_iff {t : Token} {ts rest : List Token} :
    expect t ts = .ok rest ↔ ts = t :: rest := by
  constructor
  · intro h
    cases ts with
    | nil => cases h
    | cons t' ts =>
        rw [expect] at h
        split at h
        · rename_i ht
          cases h
          rw [ht]
        · cases h
  · rintro rfl
    exact expect_self t rest

theorem written_of_readComparison {ts rest : List Token} {t : Term}
    (h : readComparison values ts = .ok (t, rest)) : ∃ w, ts = w ++ rest ∧ Written values w t := by
  obtain ⟨⟨left, ts₁⟩, h₁, h⟩ := bind_eq_ok_iff.mp h
  obtain ⟨l, hts, hl⟩ := readOperand_eq_ok_iff.mp h₁
  dsimp only at h
  split at h
  · rename_i ts₂
    obtain ⟨⟨low, ts₃⟩, h₃, h⟩ := bind_eq_ok_iff.mp h
    obtain ⟨ts₄, h₄, h⟩ := bind_eq_ok_iff.mp h
    obtain ⟨⟨high, ts₅⟩, h₅, h⟩ := bind_eq_ok_iff.mp h
    cases h
    obtain ⟨a, hts₂, ha⟩ := readOperand_eq_ok_iff.mp h₃
    have hts₃ : ts₃ = .and :: ts₄ := expect_eq_ok_iff.mp h₄
    obtain ⟨b, hts₄, hb⟩ := readOperand_eq_ok_iff.mp h₅
    refine ⟨[l, .between, a, .and, b], ?_, .between hl ha hb⟩
    rw [hts, hts₂, hts₃, hts₄]
    rfl
  · split at h
    · cases h
    · rename_i sign hsign
      obtain ⟨⟨right, ts₂⟩, h₂, h⟩ := bind_eq_ok_iff.mp h
      cases h
      obtain ⟨r, htail, hr⟩ := readOperand_eq_ok_iff.mp h₂
      obtain ⟨s, hhead, hs⟩ := Option.bind_eq_some_iff.mp hsign
      refine ⟨[l, s, r], ?_, .compare hl hs hr⟩
      rw [hts, List.eq_cons_of_mem_head? hhead, htail]
      rfl

theorem written_of_readBeginsWith {ts rest : List Token} {t : Term}
    (h : readBeginsWith values ts = .ok (t, rest)) :
    ∃ w, .beginsWith :: ts = w ++ rest ∧ Written values w t := by
  obtain ⟨ts₁, h₁, h⟩ := bind_eq_ok_iff.mp h
  obtain ⟨⟨subject, ts₂⟩, h₂, h⟩ := bind_eq_ok_iff.mp h
  obtain ⟨ts₃, h₃, h⟩ := bind_eq_ok_iff.mp h
  obtain ⟨⟨start, ts₄⟩, h₄, h⟩ := bind_eq_ok_iff.mp h
  obtain ⟨ts₅, h₅, h⟩ := bind_eq_ok_iff.mp h
  cases h
  have hts : ts = .leftBracket :: ts₁ := expect_eq_ok_iff.mp h₁
  obtain ⟨s, hts₁, hs⟩ := readOperand_eq_ok_iff.mp h₂
  have hts₂ : ts₂ = .comma :: ts₃ := expect_eq_ok_iff.mp h₃
  obtain ⟨p, hts₃, hp⟩ := readOperand_eq_ok_iff.mp h₄
  have hts₄ : ts₄ = .rightBracket :: rest := expect_eq_ok_iff.mp h₅
  refine ⟨[.beginsWith, .leftBracket, s, .comma, p, .rightBracket], ?_, .beginsWith hs hp⟩
  rw [hts, hts₁, hts₂, hts₃, hts₄]
  rfl

theorem written_of_readBare {ts rest : List Token} {t : Term}
    (h : readBare values ts = .ok (t, rest)) : ∃ w, ts = w ++ rest ∧ Written values w t := by
  unfold readBare at h
  split at h
  · exact written_of_readBeginsWith h
  · exact written_of_readComparison h

/-- After a term, either all brackets are closed and nothing follows, or some are closed and `AND`
follows. -/
theorem afterTerm_eq_ok {depth : Nat} {ts : List Token} {next : Option (Nat × List Token)}
    (h : afterTerm depth ts = .ok next) :
    (next = none ∧ ts = List.replicate depth .rightBracket)
      ∨ ∃ opened closed more, next = some (opened, more) ∧ depth = opened + closed
        ∧ ts = List.replicate closed .rightBracket ++ .and :: more := by
  fun_induction afterTerm depth ts with
  | case1 =>
      cases h
      exact Or.inl ⟨rfl, rfl⟩
  | case2 depth ts =>
      cases h
      exact Or.inr ⟨depth, 0, ts, rfl, rfl, rfl⟩
  | case3 depth ts ih =>
      rcases ih h with ⟨hnext, rfl⟩ | ⟨opened, closed, more, hnext, rfl, rfl⟩
      · exact Or.inl ⟨hnext, rfl⟩
      · exact Or.inr ⟨opened, closed + 1, more, hnext, rfl, rfl⟩
  | case4 => cases h
  | case5 => cases h

/-! ## Brackets that are still open -/

/-- What differs from the repeated element comes after all repetitions. -/
theorem exists_of_replicate_append {α : Type} {a y : α} {k : Nat} {more xs ys : List α} (hne : y ≠ a)
    (h : List.replicate k a ++ more = xs ++ y :: ys) :
    ∃ zs, xs = List.replicate k a ++ zs ∧ more = zs ++ y :: ys := by
  rcases List.append_eq_append_iff.mp h with ⟨zs, hxs, hmore⟩ | ⟨zs, hrep, hys⟩
  · exact ⟨zs, hxs, hmore⟩
  · cases zs with
    | nil =>
        rw [List.append_nil] at hrep
        exact ⟨[], by rw [hrep, List.append_nil], hys.symm⟩
    | cons z zs =>
        obtain ⟨rfl, -⟩ := List.cons.inj hys
        have hmem : y ∈ List.replicate k a := by
          rw [hrep]
          simp
        exact absurd (List.eq_of_mem_replicate hmem) hne

/-- A conjunction inside any number of brackets. -/
theorem Conjunction.nest {ts : List Token} {us : List Term} (h : Conjunction values ts us) (k : Nat) :
    Conjunction values
      (List.replicate k .leftBracket ++ (ts ++ List.replicate k .rightBracket)) us := by
  induction k with
  | zero => simpa using h
  | succ k ih =>
      have houter := ih.brackets
      rw [List.replicate_succ, List.replicate_succ']
      simpa using houter

/-- A conjunction may go before another one inside the brackets with which this one opens. -/
theorem Conjunction.insert {k : Nat} {ts more : List Token} {us us' : List Term}
    (h : Conjunction values ts us)
    (h' : Conjunction values (List.replicate k .leftBracket ++ more) us') :
    Conjunction values (List.replicate k .leftBracket ++ (ts ++ .and :: more)) (us ++ us') := by
  generalize hall : List.replicate k Token.leftBracket ++ more = all at h'
  induction h' generalizing k more with
  | term ht =>
      cases k with
      | zero =>
          obtain rfl : more = _ := hall
          exact h.and (.term ht)
      | succ k =>
          -- a term on its own does not open with a bracket
          refine absurd ?_ (ht.head_ne [] (List.replicate k .leftBracket ++ more))
          rw [List.append_nil, ← hall]
          rfl
  | and h₁ h₂ ih₁ ih₂ =>
      obtain ⟨zs, rfl, rfl⟩ := exists_of_replicate_append (by decide) hall
      have hleft := (ih₁ rfl).and h₂
      simpa using hleft
  | brackets h₁ ih₁ =>
      cases k with
      | zero =>
          obtain rfl : more = _ := hall
          exact h.and h₁.brackets
      | succ k =>
          have htail : List.replicate k Token.leftBracket ++ more = _ := (List.cons.inj hall).2
          obtain ⟨zs, rfl, rfl⟩ := exists_of_replicate_append (by decide) htail
          have hinner := (ih₁ rfl).brackets
          rw [List.replicate_succ]
          simpa using hinner

/-- What is read inside open brackets is the conjunction that these brackets open. -/
theorem conjunction_of_readTerms {depth : Nat} {ts : List Token} {us : List Term}
    (h : readTerms values depth ts = .ok us) :
    Conjunction values (List.replicate depth .leftBracket ++ ts) us := by
  fun_induction readTerms values depth ts generalizing us with
  | case1 depth ts ih =>
      have hopen := ih h
      rw [List.replicate_succ'] at hopen
      simpa using hopen
  | case2 => cases h
  | case3 => cases h
  | case4 depth ts _ t rest hread hafter =>
      cases h
      obtain ⟨w, rfl, hw⟩ := written_of_readBare hread
      rcases afterTerm_eq_ok hafter with ⟨-, rfl⟩ | ⟨_, _, _, hnext, -⟩
      · exact (Conjunction.term hw).nest depth
      · cases hnext
  | case5 depth ts _ t rest hread opened more hafter ih =>
      obtain ⟨us, hus, rfl⟩ := map_eq_ok_iff.mp h
      obtain ⟨w, rfl, hw⟩ := written_of_readBare hread
      rcases afterTerm_eq_ok hafter with ⟨hnext, -⟩ | ⟨_, closed, _, hnext, rfl, rfl⟩
      · cases hnext
      · cases hnext
        -- the brackets that are closed after the term have been opened right before it
        have hterm := ((Conjunction.term hw).nest closed).insert (ih hus)
        rw [← List.replicate_append_replicate]
        simpa only [List.append_assoc, List.singleton_append] using hterm

/-! ## Texts -/

/-- A text is read exactly if it spells a sentence whose placeholders are bound, and into the terms of
the sentence. -/
theorem ofText_eq_ok_iff {text : String} {us : List Term} :
    ofText values text = .ok us
      ↔ ∃ ts, Token.Spelling text.toList ts ∧ Derives values .condition ts us := by
  simp only [derives_iff_conjunction]
  constructor
  · intro h
    obtain ⟨ts, hts, hread⟩ := bind_eq_ok_iff.mp h
    exact ⟨ts, Token.scan_eq_ok_iff.mp hts, conjunction_of_readTerms hread⟩
  · rintro ⟨ts, hts, hus⟩
    exact ofText_of_conjunction hts hus

end Term

end SingleTable
