import SingleTable.KeyCondition.Term
import SingleTable.Proofs.Spelling

set_option autoImplicit false

/-!
# Conjunctions of terms

The grammar of key conditions as a relation between tokens and the terms that they stand for, once
the placeholders are bound. A condition that the grammar derives is read into exactly its terms
(`Term.ofText_of_conjunction`).
-/

namespace SingleTable

/-! ## The grammar -/

/-- The token stands for the operand. -/
inductive Operand.Written (values : Dict AttributeValue) : Token → Operand → Prop
  | name (text : String) : Written values (.name text) (.attribute text)
  | placeholder {text : String} {v : AttributeValue} (h : values.get? (":" ++ text) = some v) :
      Written values (.placeholder text) (.value v)

namespace Term

variable {values : Dict AttributeValue}

/-- The tokens stand for the term. -/
inductive Written (values : Dict AttributeValue) : List Token → Term → Prop
  | compare {l s r : Token} {left right : Operand} {sign : Comparison}
      (hl : Operand.Written values l left) (hs : Comparison.ofToken? s = some sign)
      (hr : Operand.Written values r right) : Written values [l, s, r] (.compare left sign right)
  | between {s a b : Token} {subject low high : Operand} (hs : Operand.Written values s subject)
      (ha : Operand.Written values a low) (hb : Operand.Written values b high) :
      Written values [s, .between, a, .and, b] (.between subject low high)
  | beginsWith {s p : Token} {subject start : Operand} (hs : Operand.Written values s subject)
      (hp : Operand.Written values p start) :
      Written values [.beginsWith, .leftBracket, s, .comma, p, .rightBracket]
        (.beginsWith subject start)

/-- The tokens stand for the conjunction of the terms, in whatever way it is bracketed. -/
inductive Conjunction (values : Dict AttributeValue) : List Token → List Term → Prop
  | term {ts : List Token} {t : Term} (h : Written values ts t) : Conjunction values ts [t]
  | and {ts ts' : List Token} {us us' : List Term} (h : Conjunction values ts us)
      (h' : Conjunction values ts' us') : Conjunction values (ts ++ .and :: ts') (us ++ us')
  | brackets {ts : List Token} {us : List Term} (h : Conjunction values ts us) :
      Conjunction values (.leftBracket :: (ts ++ [.rightBracket])) us

/-! ## Reading single terms -/

theorem readOperand_of_written {t : Token} {o : Operand} (h : Operand.Written values t o)
    (rest : List Token) : readOperand values (t :: rest) = .ok (o, rest) := by
  cases h with
  | name text => rfl
  | placeholder h => simp only [readOperand, h]

theorem expect_self (t : Token) (rest : List Token) : expect t (t :: rest) = .ok rest :=
  if_pos rfl

theorem readComparison_compare {l s r : Token} {left right : Operand} {sign : Comparison}
    (hl : Operand.Written values l left) (hs : Comparison.ofToken? s = some sign)
    (hr : Operand.Written values r right) (rest : List Token) :
    readComparison values (l :: s :: r :: rest) = .ok (.compare left sign right, rest) := by
  have hright := readOperand_of_written hr rest
  refine bind_eq_ok_iff.mpr ⟨_, readOperand_of_written hl (s :: r :: rest), ?_⟩
  cases s <;> cases hs
  all_goals exact bind_eq_ok_iff.mpr ⟨_, hright, rfl⟩

theorem readComparison_between {s a b : Token} {subject low high : Operand}
    (hs : Operand.Written values s subject) (ha : Operand.Written values a low)
    (hb : Operand.Written values b high) (rest : List Token) :
    readComparison values (s :: .between :: a :: .and :: b :: rest)
      = .ok (.between subject low high, rest) := by
  have hlow := readOperand_of_written ha (.and :: b :: rest)
  have hhigh := readOperand_of_written hb rest
  refine bind_eq_ok_iff.mpr ⟨_, readOperand_of_written hs (.between :: a :: .and :: b :: rest), ?_⟩
  refine bind_eq_ok_iff.mpr ⟨_, hlow, ?_⟩
  refine bind_eq_ok_iff.mpr ⟨_, expect_self .and (b :: rest), ?_⟩
  exact bind_eq_ok_iff.mpr ⟨_, hhigh, rfl⟩

theorem readBeginsWith_of_written {s p : Token} {subject start : Operand}
    (hs : Operand.Written values s subject) (hp : Operand.Written values p start)
    (rest : List Token) :
    readBeginsWith values (.leftBracket :: s :: .comma :: p :: .rightBracket :: rest)
      = .ok (.beginsWith subject start, rest) := by
  have hsubject := readOperand_of_written hs (.comma :: p :: .rightBracket :: rest)
  have hstart := readOperand_of_written hp (.rightBracket :: rest)
  refine bind_eq_ok_iff.mpr ⟨_, expect_self .leftBracket _, ?_⟩
  refine bind_eq_ok_iff.mpr ⟨_, hsubject, ?_⟩
  refine bind_eq_ok_iff.mpr ⟨_, expect_self .comma _, ?_⟩
  refine bind_eq_ok_iff.mpr ⟨_, hstart, ?_⟩
  exact bind_eq_ok_iff.mpr ⟨_, expect_self .rightBracket rest, rfl⟩

theorem readBare_of_written {ts : List Token} {t : Term} (h : Written values ts t)
    (rest : List Token) : readBare values (ts ++ rest) = .ok (t, rest) := by
  cases h with
  | compare hl hs hr =>
      have hread := readComparison_compare hl hs hr rest
      cases hl <;> exact hread
  | between hs ha hb =>
      have hread := readComparison_between hs ha hb rest
      cases hs <;> exact hread
  | beginsWith hs hp => exact readBeginsWith_of_written hs hp rest

/-- A term starts with no bracket. -/
theorem Written.head_ne {ts : List Token} {t : Term} (h : Written values ts t) (rest : List Token) :
    ∀ more, ts ++ rest ≠ .leftBracket :: more := by
  rintro more heq
  cases h with
  | compare hl hs hr => cases hl <;> cases heq
  | between hs ha hb => cases hs <;> cases heq
  | beginsWith hs hp => cases heq

/-! ## Reading conjunctions -/

/-- The terms of a condition of which the terms `us` have been read and `after` comes next. -/
def resume (values : Dict AttributeValue) (us : List Term)
    (after : Except ConditionError (Option (Nat × List Token))) :
    Except ConditionError (List Term) := do
  match ← after with
  | none => return us
  | some (depth, ts) => (readTerms values depth ts).map (us ++ ·)

theorem readTerms_leftBracket (depth : Nat) (ts : List Token) :
    readTerms values depth (.leftBracket :: ts) = readTerms values (depth + 1) ts := by
  rw [readTerms]

theorem readTerms_of_readBare {depth : Nat} {ts rest : List Token} {t : Term}
    (hne : ∀ more, ts ≠ .leftBracket :: more) (h : readBare values ts = .ok (t, rest)) :
    readTerms values depth ts = resume values [t] (afterTerm depth rest) := by
  unfold readTerms
  split
  · rename_i more
    exact absurd rfl (hne more)
  · split
    · rename_i hr
      rw [h] at hr
      cases hr
    · rename_i hr
      rw [h] at hr
      cases hr
      split
      all_goals
        rename_i ha
        rw [ha]
        rfl

/-- Inside brackets or not, a conjunction is read into its terms, and what follows is taken up. -/
theorem readTerms_of_conjunction {ts : List Token} {us : List Term}
    (h : Conjunction values ts us) (depth : Nat) (rest : List Token) :
    readTerms values depth (ts ++ rest) = resume values us (afterTerm depth rest) := by
  induction h generalizing depth rest with
  | term h => exact readTerms_of_readBare (h.head_ne rest) (readBare_of_written h rest)
  | and h h' ih ih' =>
      rename_i ts ts' us us'
      have hafter : afterTerm depth (.and :: (ts' ++ rest)) = .ok (some (depth, ts' ++ rest)) := by
        cases depth <;> rfl
      -- the left terms are read first; the reader then goes on with the right ones
      rw [List.append_assoc, List.cons_append, ih, hafter]
      show (readTerms values depth (ts' ++ rest)).map (us ++ ·) = _
      rw [ih']
      cases ha : afterTerm depth rest with
      | error e => rfl
      | ok next =>
          cases next with
          | none => rfl
          | some next =>
              show ((readTerms values next.1 next.2).map (us' ++ ·)).map (us ++ ·)
                = (readTerms values next.1 next.2).map (us ++ us' ++ ·)
              cases readTerms values next.1 next.2 with
              | error e => rfl
              | ok more => exact congrArg Except.ok (List.append_assoc us us' more).symm
  | brackets h ih =>
      rename_i ts us
      -- the closing bracket takes back the depth that the opening one has added
      rw [List.cons_append, readTerms_leftBracket, List.append_assoc, ih]
      rfl

/-- A text that spells a conjunction is read into the terms of the conjunction. -/
theorem ofText_of_conjunction {text : String} {ts : List Token} {us : List Term}
    (hs : Token.Spelling text.toList ts) (h : Conjunction values ts us) :
    ofText values text = .ok us := by
  unfold ofText
  rw [Token.scan_eq_ok_iff.mpr hs]
  show readTerms values 0 ts = .ok us
  have hread := readTerms_of_conjunction h 0 []
  rw [List.append_nil] at hread
  exact hread

end Term

end SingleTable
