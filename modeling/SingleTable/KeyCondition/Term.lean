import SingleTable.KeyCondition.Token
import SingleTable.Proofs.Outcome

set_option autoImplicit false

/-!
# Terms of key conditions

A key condition is a conjunction of terms, which may be bracketed to any depth:

    condition := term ( AND term )*
    term      := operand ( = | < | <= | > | >= ) operand
               | operand BETWEEN operand AND operand
               | begins_with ( operand , operand )
               | ( condition )
    operand   := name | :placeholder

Brackets do not change the meaning, so a condition is read into the list of its terms. Placeholders
are replaced by the values bound to them while they are read.
-/

namespace SingleTable

/-- One side of a term: an attribute name, or the value bound to a placeholder. -/
inductive Operand where
  | attribute (name : String)
  | value (v : AttributeValue)
  deriving DecidableEq, Repr

/-- The comparison signs. -/
inductive Comparison where
  | equal
  | less
  | atMost
  | greater
  | atLeast
  deriving DecidableEq, Repr

/-- The comparison seen from the other side. -/
def Comparison.flip : Comparison → Comparison
  | .equal => .equal
  | .less => .greater
  | .atMost => .atLeast
  | .greater => .less
  | .atLeast => .atMost

/-- The comparison that a token stands for. -/
def Comparison.ofToken? : Token → Option Comparison
  | .equal => some .equal
  | .less => some .less
  | .atMost => some .atMost
  | .greater => some .greater
  | .atLeast => some .atLeast
  | _ => none

/-- A term of a key condition. -/
inductive Term where
  | compare (left : Operand) (sign : Comparison) (right : Operand)
  | between (subject low high : Operand)
  | beginsWith (subject start : Operand)
  deriving DecidableEq, Repr

namespace Term

/-! ## Reading single terms -/

/-- The text after a token that has to come next. -/
def expect (t : Token) : List Token → Except ConditionError (List Token)
  | [] => .error (.unexpected (.token t) none)
  | t' :: ts => if t' = t then .ok ts else .error (.unexpected (.token t) (some t'))

/-- The operand that comes next. -/
def readOperand (values : Dict AttributeValue) :
    List Token → Except ConditionError (Operand × List Token)
  | .name text :: ts => .ok (.attribute text, ts)
  | .placeholder text :: ts =>
      match values.get? (":" ++ text) with
      | some v => .ok (.value v, ts)
      | none => .error (.unbound text)
  | ts => .error (.unexpected .operand ts.head?)

/-- The term that comes next and starts with an operand. -/
def readComparison (values : Dict AttributeValue) (ts : List Token) :
    Except ConditionError (Term × List Token) := do
  let (left, ts) ← readOperand values ts
  match ts with
  | .between :: ts => do
      let (low, ts) ← readOperand values ts
      let ts ← expect .and ts
      let (high, ts) ← readOperand values ts
      return (.between left low high, ts)
  | ts =>
      match ts.head?.bind Comparison.ofToken? with
      | none => .error (.unexpected .comparison ts.head?)
      | some sign => do
          let (right, ts) ← readOperand values ts.tail
          return (.compare left sign right, ts)

/-- The rest of a term after the word `begins_with`. -/
def readBeginsWith (values : Dict AttributeValue) (ts : List Token) :
    Except ConditionError (Term × List Token) := do
  let ts ← expect .leftBracket ts
  let (subject, ts) ← readOperand values ts
  let ts ← expect .comma ts
  let (start, ts) ← readOperand values ts
  let ts ← expect .rightBracket ts
  return (.beginsWith subject start, ts)

/-- The term that comes next and is not bracketed. -/
def readBare (values : Dict AttributeValue) : List Token → Except ConditionError (Term × List Token)
  | .beginsWith :: ts => readBeginsWith values ts
  | ts => readComparison values ts

/-! ## Reading conjunctions -/

/-- What follows a term inside `depth` open brackets: closing brackets, then either `AND` and
another term, which is returned with the brackets still open, or the end. -/
def afterTerm : Nat → List Token → Except ConditionError (Option (Nat × List Token))
  | 0, [] => .ok none
  | depth, .and :: ts => .ok (some (depth, ts))
  | depth + 1, .rightBracket :: ts => afterTerm depth ts
  | 0, t :: _ => .error (.unexpected .ending (some t))
  | _ + 1, ts => .error (.unexpected (.token .rightBracket) ts.head?)

theorem length_lt_of_expect {t : Token} {ts after : List Token} (h : expect t ts = .ok after) :
    after.length < ts.length := by
  cases ts with
  | nil => simp [expect] at h
  | cons t' ts =>
      simp only [expect] at h
      split at h
      · cases h
        exact Nat.lt_succ_self _
      · cases h

theorem length_lt_of_readOperand {values : Dict AttributeValue} {ts after : List Token}
    {o : Operand} (h : readOperand values ts = .ok (o, after)) : after.length < ts.length := by
  unfold readOperand at h
  repeat' split at h
  all_goals simp only [Except.ok.injEq, Prod.mk.injEq, reduceCtorEq] at h
  all_goals
    rw [h.2]
    exact Nat.lt_succ_self _

theorem length_lt_of_readBeginsWith {values : Dict AttributeValue} {ts after : List Token}
    {t : Term} (h : readBeginsWith values ts = .ok (t, after)) : after.length < ts.length := by
  obtain ⟨ts₁, h₁, h⟩ := bind_eq_ok_iff.mp h
  obtain ⟨⟨subject, ts₂⟩, h₂, h⟩ := bind_eq_ok_iff.mp h
  obtain ⟨ts₃, h₃, h⟩ := bind_eq_ok_iff.mp h
  obtain ⟨⟨start, ts₄⟩, h₄, h⟩ := bind_eq_ok_iff.mp h
  obtain ⟨ts₅, h₅, h⟩ := bind_eq_ok_iff.mp h
  cases h
  have l₁ := length_lt_of_expect h₁
  have l₂ := length_lt_of_readOperand h₂
  have l₃ := length_lt_of_expect h₃
  have l₄ := length_lt_of_readOperand h₄
  have l₅ := length_lt_of_expect h₅
  omega

theorem length_lt_of_readComparison {values : Dict AttributeValue} {ts after : List Token}
    {t : Term} (h : readComparison values ts = .ok (t, after)) : after.length < ts.length := by
  obtain ⟨⟨left, ts₁⟩, h₁, h⟩ := bind_eq_ok_iff.mp h
  have l₁ := length_lt_of_readOperand h₁
  simp only at h
  split at h
  · obtain ⟨⟨low, ts₂⟩, h₂, h⟩ := bind_eq_ok_iff.mp h
    obtain ⟨ts₃, h₃, h⟩ := bind_eq_ok_iff.mp h
    obtain ⟨⟨high, ts₄⟩, h₄, h⟩ := bind_eq_ok_iff.mp h
    cases h
    have l₂ := length_lt_of_readOperand h₂
    have l₃ := length_lt_of_expect h₃
    have l₄ := length_lt_of_readOperand h₄
    dsimp only [List.length_cons] at *
    omega
  · split at h
    · cases h
    · obtain ⟨⟨right, ts₂⟩, h₂, h⟩ := bind_eq_ok_iff.mp h
      cases h
      have l₂ := length_lt_of_readOperand h₂
      simp only [List.length_tail] at l₂ ⊢
      omega

/-- Reading a term uses up tokens. -/
theorem length_lt_of_readBare {values : Dict AttributeValue} {ts after : List Token} {t : Term}
    (h : readBare values ts = .ok (t, after)) : after.length < ts.length := by
  unfold readBare at h
  split at h
  · exact Nat.lt_succ_of_lt (length_lt_of_readBeginsWith h)
  · exact length_lt_of_readComparison h

theorem length_le_of_afterTerm {depth depth' : Nat} {ts after : List Token}
    (h : afterTerm depth ts = .ok (some (depth', after))) : after.length ≤ ts.length := by
  fun_induction afterTerm depth ts with
  | case1 => cases h
  | case2 depth ts =>
      cases h
      exact Nat.le_succ _
  | case3 depth ts ih => exact Nat.le_succ_of_le (ih h)
  | case4 => cases h
  | case5 => cases h

set_option linter.unusedVariables false in
/-- The terms of a condition that goes on inside `depth` open brackets. -/
def readTerms (values : Dict AttributeValue) (depth : Nat) (ts : List Token) :
    Except ConditionError (List Term) :=
  match ts with
  | .leftBracket :: ts => readTerms values (depth + 1) ts
  | ts =>
      match hr : readBare values ts with
      | .error e => .error e
      | .ok (term, rest) =>
          match ha : afterTerm depth rest with
          | .error e => .error e
          | .ok none => .ok [term]
          | .ok (some (depth', more)) => (readTerms values depth' more).map (term :: ·)
termination_by ts.length
decreasing_by
  · exact Nat.lt_succ_self _
  · exact Nat.lt_of_le_of_lt (length_le_of_afterTerm ha) (length_lt_of_readBare hr)

/-- The terms of a key condition, from left to right. -/
def ofText (values : Dict AttributeValue) (text : String) : Except ConditionError (List Term) := do
  readTerms values 0 (← Token.scan text)

end Term

end SingleTable
