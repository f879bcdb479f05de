import SingleTable.KeyQuery
import SingleTable.Proofs.Conjunction

set_option autoImplicit false

/-!
# Clauses of a compiled query

A filter is a list of clauses, one for each operator that is set. Each clause compiles to a fragment
of text, and reading the condition of a whole query gives back the equality of the partition key and
one term for each clause (`KeyQuery.ofText_compiled`), with every placeholder bound to its own value.
-/

namespace SingleTable

open Token (Spelling)

/-! ## Clauses -/

/-- One operator of a filter with its values. -/
inductive Clause where
  | compare (sign : Comparison) (v : AttributeValue)
  | between (low high : AttributeValue)
  | beginsWith (start : AttributeValue)
  deriving DecidableEq

namespace Comparison

/-- The sign of a comparison. -/
def sign : Comparison → String
  | .equal => "="
  | .less => "<"
  | .atMost => "<="
  | .greater => ">"
  | .atLeast => ">="

/-- The placeholder for the value of a comparison. -/
def placeholder : Comparison → String
  | .equal => Placeholder.equal
  | .less => Placeholder.less
  | .atMost => Placeholder.atMost
  | .greater => Placeholder.greater
  | .atLeast => Placeholder.atLeast

end Comparison

namespace Clause

/-- The fragment that a clause on the sort key `sort` compiles to. -/
def fragment (sort : String) : Clause → Fragment
  | .compare c v =>
      ⟨sort ++ " " ++ c.sign ++ " " ++ c.placeholder, [(c.placeholder, v)]⟩
  | .between low high =>
      ⟨sort ++ " between " ++ Placeholder.low ++ " and " ++ Placeholder.high,
        [(Placeholder.low, low), (Placeholder.high, high)]⟩
  | .beginsWith v =>
      ⟨"begins_with(" ++ sort ++ ", " ++ Placeholder.start ++ ")", [(Placeholder.start, v)]⟩

/-- The term that a clause on the sort key `sort` stands for. -/
def term (sort : String) : Clause → Term
  | .compare c v => .compare (.attribute sort) c (.value v)
  | .between low high => .between (.attribute sort) (.value low) (.value high)
  | .beginsWith v => .beginsWith (.attribute sort) (.value v)

end Clause

namespace SortFilter

/-- The clauses of a filter, in the order of their fragments. -/
def clauses (f : SortFilter) : List Clause :=
  (f.equal.map (Clause.compare .equal)).toList
    ++ (f.less.map (Clause.compare .less)).toList
    ++ (f.atMost.map (Clause.compare .atMost)).toList
    ++ (f.greater.map (Clause.compare .greater)).toList
    ++ (f.atLeast.map (Clause.compare .atLeast)).toList
    ++ (f.between.map (fun b => Clause.between b.1 b.2)).toList
    ++ (f.beginsWith.map Clause.beginsWith).toList

theorem comparison_eq (sort : String) (c : Comparison) (v : Option AttributeValue) :
    comparison sort c.sign c.placeholder v
      = (v.map (Clause.compare c)).toList.map (Clause.fragment sort) := by
  cases v <;> rfl

/-- A filter compiles clause by clause. -/
theorem fragments_eq (sort : String) (f : SortFilter) :
    f.fragments sort = f.clauses.map (Clause.fragment sort) := by
  have hbetween : betweenFragment sort f.between
      = (f.between.map (fun b => Clause.between b.1 b.2)).toList.map (Clause.fragment sort) := by
    cases f.between <;> rfl
  have hbegins : beginsWithFragment sort f.beginsWith
      = (f.beginsWith.map Clause.beginsWith).toList.map (Clause.fragment sort) := by
    cases f.beginsWith <;> rfl
  have hequal := comparison_eq sort .equal f.equal
  have hless := comparison_eq sort .less f.less
  have hatMost := comparison_eq sort .atMost f.atMost
  have hgreater := comparison_eq sort .greater f.greater
  have hatLeast := comparison_eq sort .atLeast f.atLeast
  simp only [Comparison.sign, Comparison.placeholder] at hequal hless hatMost hgreater hatLeast
  simp only [fragments, clauses, List.map_append, hequal, hless, hatMost, hgreater, hatLeast,
    hbetween, hbegins]

end SortFilter

/-! ## The placeholders of a query -/

theorem nodup_placeholders : Placeholder.all.Nodup := by decide

/-- The names that the fragments of a filter bind are placeholders, each bound at most once. -/
theorem SortFilter.sublist_bindings (sort : String) (f : SortFilter) :
    (((f.fragments sort).flatMap Fragment.bindings).map Prod.fst).Sublist Placeholder.all := by
  have hcomparison : ∀ (sign p : String) (v : Option AttributeValue),
      (((comparison sort sign p v).flatMap Fragment.bindings).map Prod.fst).Sublist [p] := by
    intro sign p v
    cases v with
    | none => exact List.nil_sublist _
    | some v => exact List.Sublist.refl _
  have hbetween : (((betweenFragment sort f.between).flatMap Fragment.bindings).map
      Prod.fst).Sublist [Placeholder.low, Placeholder.high] := by
    cases f.between with
    | none => exact List.nil_sublist _
    | some b => exact List.Sublist.refl _
  have hbegins : (((beginsWithFragment sort f.beginsWith).flatMap Fragment.bindings).map
      Prod.fst).Sublist [Placeholder.start] := by
    cases f.beginsWith with
    | none => exact List.nil_sublist _
    | some v => exact List.Sublist.refl _
  have hall := ((((((hcomparison "=" Placeholder.equal f.equal).append
    (hcomparison "<" Placeholder.less f.less)).append
    (hcomparison "<=" Placeholder.atMost f.atMost)).append
    (hcomparison ">" Placeholder.greater f.greater)).append
    (hcomparison ">=" Placeholder.atLeast f.atLeast)).append hbetween).append hbegins
  simp only [fragments, List.flatMap_append, List.map_append]
  exact hall

/-- Every placeholder of a query is bound to the value that its fragment gives it. -/
theorem get?_values_of_mem {sort : String} {f : SortFilter} {last : Fragment} {p : String}
    {v : AttributeValue} (hlast : last.bindings = [(p, v)]) (hp : p ∉ Placeholder.all)
    {fragment : Fragment} (hmem : fragment = last ∨ fragment ∈ f.fragments sort)
    {b : String × AttributeValue} (hb : b ∈ fragment.bindings) :
    (Fragment.values (f.fragments sort ++ [last])).get? b.1 = some b.2 := by
  have hsub := f.sublist_bindings sort
  have hnodup : (((f.fragments sort ++ [last]).flatMap Fragment.bindings).map Prod.fst).Nodup := by
    simp only [List.flatMap_append, List.map_append, List.flatMap_cons, List.flatMap_nil, hlast,
      List.map_nil, List.map_cons, List.append_nil]
    refine List.nodup_append.mpr ⟨nodup_placeholders.sublist hsub, by simp, ?_⟩
    rintro n hn m hm rfl
    rw [List.mem_singleton] at hm
    exact hp (hm ▸ hsub.subset hn)
  refine Dict.get?_ofList_of_mem hnodup (List.mem_flatMap.mpr ⟨fragment, ?_, hb⟩)
  rw [List.mem_append, List.mem_singleton]
  exact hmem.symm

/-! ## How fragments are spelled -/

/-- The text spells a name, which is no keyword. -/
def IsName (text : String) : Prop := Token.Spells (.name text) text.toList

theorem isNameChar_of_startsName {c : Char} (h : startsName c = true) : isNameChar c = true := by
  simp only [startsName, isNameChar, Char.isAlphanum, Bool.or_eq_true] at h ⊢
  rcases h with h | h
  · exact Or.inl (Or.inl h)
  · exact Or.inr h

/-- A name is spelled by a word. -/
theorem IsName.exists_cons {name : String} (h : IsName name) :
    ∃ c w, name.toList = c :: w ∧ startsName c = true ∧ ∀ d ∈ w, isNameChar d = true := by
  unfold IsName at h
  generalize name.toList = cs at h ⊢
  generalize ht : Token.name name = t at h
  -- no sign, keyword or placeholder is the token of a name
  cases h with
  | sign h =>
      subst ht
      cases h
  | keyword h =>
      subst ht
      cases h
  | name hc hw hk => exact ⟨_, _, rfl, hc, hw⟩
  | placeholder hne hw => cases ht

theorem IsName.isNameChar {name : String} (h : IsName name) :
    ∀ d ∈ name.toList, SingleTable.isNameChar d = true := by
  obtain ⟨c, w, hcons, hc, hw⟩ := h.exists_cons
  rw [hcons]
  exact List.forall_mem_cons.mpr ⟨isNameChar_of_startsName hc, hw⟩

/-- The placeholder named after a name is a single token. -/
theorem IsName.spells_ofName {name : String} (h : IsName name) :
    Token.Spells (.placeholder name) (Placeholder.ofName name).toList := by
  have hne : name.toList ≠ [] := by
    obtain ⟨c, w, hcons, -⟩ := h.exists_cons
    rw [hcons]
    exact List.cons_ne_nil c w
  have hspells := Token.Spells.placeholder hne h.isNameChar
  rw [String.ofList_toList] at hspells
  rw [Placeholder.ofName, String.toList_append]
  exact hspells

/-- The placeholders of operators are named after names. -/
theorem exists_name_of_mem_placeholders {p : String} (h : p ∈ Placeholder.all) :
    ∃ name, IsName name ∧ p = Placeholder.ofName name := by
  simp only [Placeholder.all, List.mem_cons, List.not_mem_nil, or_false] at h
  rcases h with rfl | rfl | rfl | rfl | rfl | rfl | rfl | rfl
  · exact ⟨"eq", Token.spells_of_word rfl rfl rfl rfl, rfl⟩
  · exact ⟨"lessThan", Token.spells_of_word rfl rfl rfl rfl, rfl⟩
  · exact ⟨"lessThanEqual", Token.spells_of_word rfl rfl rfl rfl, rfl⟩
  · exact ⟨"greaterThan", Token.spells_of_word rfl rfl rfl rfl, rfl⟩
  · exact ⟨"greaterThanEqual", Token.spells_of_word rfl rfl rfl rfl, rfl⟩
  · exact ⟨"betweenA", Token.spells_of_word rfl rfl rfl rfl, rfl⟩
  · exact ⟨"betweenB", Token.spells_of_word rfl rfl rfl rfl, rfl⟩
  · exact ⟨"beginsWith", Token.spells_of_word rfl rfl rfl rfl, rfl⟩

/-! ## Reading fragments -/

/-- The text of the fragment stands for the term, once the placeholders are bound. -/
def Fragment.Stands (values : Dict AttributeValue) (fragment : Fragment) (t : Term) : Prop :=
  ∃ ts, Spelling fragment.text.toList ts ∧ Term.Written values ts t

theorem Comparison.exists_token (c : Comparison) :
    ∃ t : Token, t.Spells c.sign.toList ∧ Comparison.ofToken? t = some c := by
  cases c with
  | equal => exact ⟨.equal, .sign rfl, rfl⟩
  | less => exact ⟨.less, .sign rfl, rfl⟩
  | atMost => exact ⟨.atMost, .sign rfl, rfl⟩
  | greater => exact ⟨.greater, .sign rfl, rfl⟩
  | atLeast => exact ⟨.atLeast, .sign rfl, rfl⟩

section

variable {values : Dict AttributeValue} {sort : String}

theorem stands_comparison (hsort : IsName sort) (c : Comparison) {name : String}
    (hname : IsName name) {v : AttributeValue}
    (hv : values.get? (Placeholder.ofName name) = some v)
    (bindings : List (String × AttributeValue)) :
    Fragment.Stands values ⟨sort ++ " " ++ c.sign ++ " " ++ Placeholder.ofName name, bindings⟩
      (.compare (.attribute sort) c (.value v)) := by
  obtain ⟨t, ht, hc⟩ := c.exists_token
  refine ⟨[.name sort, t, .placeholder name], ?_, .compare (.name sort) hc (.placeholder hv)⟩
  have hspelling := (hsort.spelling.space ht).space hname.spells_ofName
  simpa using hspelling

/-- The fragment of a clause stands for its term, if its placeholders are bound to its values. -/
theorem Clause.stands (hsort : IsName sort) {c : Clause}
    (hb : ∀ b ∈ (c.fragment sort).bindings, values.get? b.1 = some b.2) :
    (c.fragment sort).Stands values (c.term sort) := by
  cases c with
  | compare c v =>
      have hp : c.placeholder ∈ Placeholder.all := by cases c <;> decide
      obtain ⟨name, hname, heq⟩ := exists_name_of_mem_placeholders hp
      have hv := hb (c.placeholder, v) (by simp [fragment])
      rw [heq] at hv
      simp only [fragment, term, heq]
      exact stands_comparison hsort c hname hv _
  | between low high =>
      have hlow := hb (Placeholder.low, low) (by simp [fragment])
      have hhigh := hb (Placeholder.high, high) (by simp [fragment])
      have hbetween : Token.Spells .between "between".toList := Token.spells_of_word rfl rfl rfl rfl
      have hand : Token.Spells .and "and".toList := Token.spells_of_word rfl rfl rfl rfl
      have hA : IsName "betweenA" := Token.spells_of_word rfl rfl rfl rfl
      have hB : IsName "betweenB" := Token.spells_of_word rfl rfl rfl rfl
      refine ⟨[.name sort, .between, .placeholder "betweenA", .and, .placeholder "betweenB"], ?_,
        .between (.name sort) (.placeholder hlow) (.placeholder hhigh)⟩
      have hlowSpells : Token.Spells (.placeholder "betweenA") Placeholder.low.toList :=
        hA.spells_ofName
      have hhighSpells : Token.Spells (.placeholder "betweenB") Placeholder.high.toList :=
        hB.spells_ofName
      have hspelling :=
        (((hsort.spelling.space hbetween).space hlowSpells).space hand).space hhighSpells
      simpa [fragment] using hspelling
  | beginsWith v =>
      have hv := hb (Placeholder.start, v) (by simp [fragment])
      have hopen : Token.Spells .beginsWith "begins_with".toList :=
        Token.spells_of_word rfl rfl rfl rfl
      have hstart : IsName "beginsWith" := Token.spells_of_word rfl rfl rfl rfl
      refine ⟨[.beginsWith, .leftBracket, .name sort, .comma, .placeholder "beginsWith",
        .rightBracket], ?_, .beginsWith (.name sort) (.placeholder hv)⟩
      have hclose : Spelling [')'] [.rightBracket] := (Token.Spells.sign rfl).spelling
      have hstartSpells : Token.Spells (.placeholder "beginsWith") Placeholder.start.toList :=
        hstart.spells_ofName
      have hvalue := hstartSpells.adjoin (.of_head rfl []) hclose
      have hcomma : Token.Spells .comma [','] := .sign rfl
      have hrest := hcomma.adjoin (.of_head rfl _) hvalue.after_space
      have hbracket : Token.Spells .leftBracket ['('] := .sign rfl
      have hspelling := hopen.adjoin (.of_head rfl _)
        (hbracket.adjoin (fun _ _ => rfl) (hsort.adjoin (.of_head rfl _) hrest))
      simpa [fragment] using hspelling

/-- Fragments joined by `and` stand for the conjunction of their terms. -/
theorem exists_conjunction {α : Type} {fragment : α → Fragment} {term : α → Term} {xs : List α}
    {first : Fragment} {t : Term} (h : first.Stands values t)
    (hs : ∀ x ∈ xs, (fragment x).Stands values (term x)) :
    ∃ ts, Spelling (Fragment.join (first :: xs.map fragment)).toList ts
      ∧ Term.Conjunction values ts (t :: xs.map term) := by
  induction xs generalizing first t with
  | nil =>
      obtain ⟨ts, hts, ht⟩ := h
      exact ⟨ts, by simpa [Fragment.join] using hts, .term ht⟩
  | cons x xs ih =>
      obtain ⟨ts, hts, ht⟩ := h
      obtain ⟨hx, hxs⟩ := List.forall_mem_cons.mp hs
      obtain ⟨us, hus, hu⟩ := ih hx hxs
      refine ⟨ts ++ .and :: us, ?_, (Term.Conjunction.term ht).and hu⟩
      -- the text of the fragment, then the word between two blanks, then the other fragments
      have hand : Token.Spells .and "and".toList := Token.spells_of_word rfl rfl rfl rfl
      have hrest := hand.adjoin (.of_head rfl _) hus.after_space
      have hspelling := hts.append rfl hrest.after_space
      simpa [Fragment.join] using hspelling

end

namespace KeyQuery

/-- The term that fixes the partition key. -/
def partitionTerm (q : KeyQuery) : Term :=
  .compare (.attribute q.partitionName) .equal (.value q.partitionValue)

/-- The terms of a query: the one that fixes the partition key, then one for each clause. -/
def terms (q : KeyQuery) : List Term :=
  q.partitionTerm :: q.filter.clauses.map (Clause.term q.sortName)

section

variable {q : KeyQuery} (hp : IsName q.partitionName)
  (hc : Placeholder.collides q.partitionName = false)

include hc

/-- Every placeholder of a query is bound to the value of its own fragment. -/
theorem get?_bindings {fragment : Fragment}
    (h : fragment = q.partitionFragment ∨ fragment ∈ q.filter.fragments q.sortName)
    {b : String × AttributeValue} (hb : b ∈ fragment.bindings) :
    (Fragment.values (q.filter.fragments q.sortName ++ [q.partitionFragment])).get? b.1
      = some b.2 := by
  have hnew : Placeholder.ofName q.partitionName ∉ Placeholder.all := by
    simpa [Placeholder.collides] using hc
  exact get?_values_of_mem rfl hnew h hb

include hp

/-- The first fragment of a query stands for the term that fixes the partition key. -/
theorem stands_partitionFragment :
    q.partitionFragment.Stands
      (Fragment.values (q.filter.fragments q.sortName ++ [q.partitionFragment])) q.partitionTerm := by
  have hv := get?_bindings hc (Or.inl rfl)
    (List.mem_singleton.mpr (rfl : (Placeholder.ofName q.partitionName, q.partitionValue) = _))
  obtain ⟨ts, hts, ht⟩ := stands_comparison hp .equal hp hv []
  refine ⟨ts, ?_, ht⟩
  simpa [partitionFragment, Comparison.sign] using hts

/-- The condition that a query compiles to is read into the terms of the query. -/
theorem ofText_compiled (hs : IsName q.sortName) :
    Term.ofText (Fragment.values (q.filter.fragments q.sortName ++ [q.partitionFragment]))
        (Fragment.join (q.partitionFragment :: q.filter.fragments q.sortName))
      = .ok q.terms := by
  have hbound : ∀ fragment,
      fragment = q.partitionFragment ∨ fragment ∈ q.filter.fragments q.sortName →
      ∀ b ∈ fragment.bindings, (Fragment.values (q.filter.fragments q.sortName
        ++ [q.partitionFragment])).get? b.1 = some b.2 :=
    fun _ hmem _ hb => get?_bindings hc hmem hb
  have hpartition := stands_partitionFragment hp hc
  rw [SortFilter.fragments_eq] at hbound hpartition ⊢
  have hclauses : ∀ c ∈ q.filter.clauses, (Clause.fragment q.sortName c).Stands (Fragment.values
      (q.filter.clauses.map (Clause.fragment q.sortName) ++ [q.partitionFragment]))
      (Clause.term q.sortName c) :=
    fun c hmem => Clause.stands hs (hbound _ (Or.inr (List.mem_map_of_mem hmem)))
  obtain ⟨ts, hts, ht⟩ := exists_conjunction hpartition hclauses
  exact Term.ofText_of_conjunction hts ht

end

end KeyQuery

end SingleTable
