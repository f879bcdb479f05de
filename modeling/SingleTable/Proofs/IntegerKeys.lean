import SingleTable.Proofs.BaseQuery
import SingleTable.Proofs.DecimalText
import SingleTable.Proofs.Rounding
import SingleTable.Proofs.Runs

set_option autoImplicit false

/-!
# Integers as sort keys

A number key keeps its text and is compared by the nearest binary64 number. Integers are listed in
their own order, and no two of them share a place unless they have the same nearest number
(`Binary64.Merged`), which happens beyond 53 bits only, and to integers that are at most 2048 apart.
Main statement: `integerKeys_of_run`.
-/

namespace SingleTable

/-- The integers have the same nearest binary64 number. -/
def Binary64.Merged (m n : Int) : Prop := (ofInt m).units? = (ofInt n).units?

/-- The item has an integer, in decimal, as a number of the given name. -/
def HasInteger (name : String) (item : Item) (z : Int) : Prop :=
  Json.IsInteger z ∧ item.get? name = some (.number (toString z))

/-! ## Places of integers -/

theorem Json.IsInteger.log2_lt {z : Int} (h : Json.IsInteger z) : z.natAbs.log2 < 64 := by
  obtain ⟨hlow, hhigh⟩ := h
  rcases Nat.eq_zero_or_pos z.natAbs with hz | hz
  · rw [hz]
    decide
  · exact (Nat.log2_lt (Nat.pos_iff_ne_zero.mp hz)).mpr (by omega)

theorem Json.IsInteger.spacing_le {z : Int} (h : Json.IsInteger z) :
    Binary64.spacing z.natAbs ≤ 2048 := by
  have hlog := h.log2_lt
  calc Binary64.spacing z.natAbs = 2 ^ (z.natAbs.log2 - 52) := rfl
    _ ≤ 2 ^ 11 := Nat.pow_le_pow_right (by decide) (by omega)

namespace Binary64

theorem units?_integer {z : Int} (h : Json.IsInteger z) :
    (ofInt z).units? = some (roundInt z * unitsPerOne) :=
  units?_ofInt (Nat.lt_trans h.log2_lt (by decide))

theorem merged_iff {m n : Int} (hm : Json.IsInteger m) (hn : Json.IsInteger n) :
    Merged m n ↔ roundInt m = roundInt n := by
  have hne : (unitsPerOne : Int) ≠ 0 := by decide
  rw [Merged, units?_integer hm, units?_integer hn, Option.some.injEq]
  exact Int.mul_eq_mul_right_iff hne

/-- Integers below 53 bits are merged with no other ones, and no integers are merged that are more than
2048 apart. -/
theorem not_merged {m n : Int} (hm : Json.IsInteger m) (hn : Json.IsInteger n) (hmn : m ≠ n)
    (h : m.natAbs < 2 ^ 53 ∨ n.natAbs < 2 ^ 53 ∨ 2048 < (m - n).natAbs) : ¬ Merged m n := by
  rw [merged_iff hm hn]
  rcases h with h | h | h
  · exact roundInt_ne h hmn
  · exact (roundInt_ne h hmn.symm).symm
  · -- each of the two is moved by 1024 at most
    have hmnear := roundInt_near m
    have hnnear := roundInt_near n
    have hmspacing := hm.spacing_le
    have hnspacing := hn.spacing_le
    omega

end Binary64

namespace SortKey

theorem numberOf_toString (z : Int) : numberOf (toString z) = Binary64.ofInt z := by
  rw [numberOf, Binary64.ofText?_toString]
  rfl

theorem comparable_integer {z : Int} (h : Json.IsInteger z) : (number (toString z)).Comparable := by
  intro hnan
  rw [numberOf_toString, ← Binary64.units?_eq_none_iff, Binary64.units?_integer h] at hnan
  cases hnan

/-- Integer keys are compared as the rounded integers. -/
theorem compare_integers {m n : Int} (hm : Json.IsInteger m) (hn : Json.IsInteger n) :
    compare (number (toString m)) (number (toString n))
      = compare (Binary64.roundInt m * Binary64.unitsPerOne)
          (Binary64.roundInt n * Binary64.unitsPerOne) := by
  rw [compare_number, numberOf_toString, numberOf_toString, Binary64.compare?,
    Binary64.units?_integer hm, Binary64.units?_integer hn]
  rfl

/-- Integers share a place exactly if they are merged. -/
theorem compare_integers_eq_iff {m n : Int} (hm : Json.IsInteger m) (hn : Json.IsInteger n) :
    compare (number (toString m)) (number (toString n)) = .eq ↔ Binary64.Merged m n := by
  rw [compare_integers hm hn, Int.compare_eq_eq, Binary64.Merged,
    Binary64.units?_integer hm, Binary64.units?_integer hn, Option.some.injEq]

/-- Of two integer keys the one that comes first is for the smaller integer. -/
theorem lt_of_compare_integers {m n : Int} (hm : Json.IsInteger m) (hn : Json.IsInteger n)
    (h : compare (number (toString m)) (number (toString n)) = .lt) : m < n := by
  rw [compare_integers hm hn, Int.compare_eq_lt] at h
  by_contra hle
  have hround := Binary64.roundInt_mono (Int.not_lt.mp hle)
  have := Int.mul_le_mul_of_nonneg_right hround (Int.natCast_nonneg Binary64.unitsPerOne)
  omega

end SortKey

theorem KeySchema.placeOf_of_hasInteger {schema : KeySchema} {sort : KeyAttribute} {item : Item}
    {z : Int} (hsort : schema.sort = some sort) (h : HasInteger sort.name item z) :
    schema.placeOf item = .number (toString z) := by
  rw [placeOf, hsort]
  simp only [h.2, Option.elim]
  rfl

/-! ## Queries -/

/-- Whatever the conditions, a query lists items with integers in the order of these, or in reverse. -/
def Storage.ListsByInteger (s : Storage) (name : String) : Prop :=
  ∀ value conditions,
    (s.query value conditions true).Pairwise
        (fun x y => ∀ i j, HasInteger name x i → HasInteger name y j → i < j)
      ∧ (s.query value conditions false).Pairwise
        (fun x y => ∀ i j, HasInteger name x i → HasInteger name y j → j < i)

namespace Storage.Sound

variable {s : Storage} (h : s.Sound) {sort : KeyAttribute} (hsort : s.schema.sort = some sort)

include h

include hsort

theorem listsByInteger : s.ListsByInteger sort.name := by
  intro value conditions
  have hforward : (s.query value conditions true).Pairwise
      (fun x y => ∀ i j, HasInteger sort.name x i → HasInteger sort.name y j → i < j) := by
    refine (h.pairwise_query value conditions).imp ?_
    intro x y hlt i j hi hj
    rw [KeySchema.placeOf_of_hasInteger hsort hi, KeySchema.placeOf_of_hasInteger hsort hj] at hlt
    exact SortKey.lt_of_compare_integers hi.1 hj.1 hlt
  refine ⟨hforward, ?_⟩
  have hback : s.query value conditions false = (s.query value conditions true).reverse := rfl
  rw [hback, List.pairwise_reverse]
  exact hforward.imp fun hlt i j hi hj => hlt j i hj hi

end Storage.Sound

/-! ## Writes -/

/-- Keys of integers in one partition address the same place exactly if the integers are merged. -/
theorem KeySchema.same_iff_merged {schema : KeySchema} {sort : KeyAttribute}
    (hsort : schema.sort = some sort) {item other : Item} {key key' : PrimaryKey}
    (hkey : schema.extract item = .ok key) (hkey' : schema.extract other = .ok key')
    (hpart : key.partition = key'.partition) {m n : Int} (hm : HasInteger sort.name item m)
    (hn : HasInteger sort.name other n) : key.same key' = true ↔ Binary64.Merged m n := by
  rw [PrimaryKey.same_iff, place_of_extract hkey, place_of_extract hkey',
    placeOf_of_hasInteger hsort hm, placeOf_of_hasInteger hsort hn,
    SortKey.compare_integers_eq_iff hm.1 hn.1]
  exact and_iff_right hpart

/-- What is found under its key is listed by a query for its partition value. -/
theorem Storage.Sound.mem_query_of_get? {s : Storage} (h : s.Sound) {item : Item} {key : PrimaryKey}
    (hkey : s.schema.extract item = .ok key) (hget : s.get? key = some item) :
    item ∈ s.query key.partition [] true := by
  refine (h.mem_query key.partition (by simp)).mpr ⟨mem_items_of_get? hget, ?_, by simp⟩
  exact (KeySchema.extract_eq_ok_iff.mp hkey).2.1

/-- Two items of one partition whose sort keys are different integers, in every state that a run
leads to. The number validator makes such sort keys from JSON. If one of the integers has at most 53
bits, or if they are more than 2048 apart, then they are not merged. Queries list by integer, before
and after the items are put. If the integers are not merged, then neither put replaces or changes
what is under the key of the other item, and both items are found under their own keys and listed.
If they are merged, then the second item replaces the first. All number keys have to be texts of
numbers (`StoreCall.Readable`). -/
theorem integerKeys_of_run (clock : Int) (calls : List StoreCall)
    (hr : AllAlong (fun s c => c.Readable s) { clock } calls) {table : String} {t : StoredTable}
    (ht : (runCalls { clock } calls).tables.get? table = some t) {name : String}
    (hsort : t.schema.sort = some ⟨name, .number⟩) {item other : Item} {key key' : PrimaryKey}
    (hkey : t.schema.extract item = .ok key) (hkey' : t.schema.extract other = .ok key')
    (hpart : key.partition = key'.partition) {m n : Int} (hm : HasInteger name item m)
    (hn : HasInteger name other n) (hmn : m ≠ n) :
    (Json.ofText (toString m) = .ok (.ofInt m)
        ∧ Validator.number.parse (some (.ofInt m)) = .ok (.number (toString m)))
      ∧ (m.natAbs < 2 ^ 53 ∨ n.natAbs < 2 ^ 53 ∨ 2048 < (m - n).natAbs → ¬ Binary64.Merged m n)
      ∧ t.storage.ListsByInteger name
      ∧ ∃ s₁ s₂ old,
          t.storage.put item = .ok (t.storage.get? key, s₁) ∧ s₁.put other = .ok (old, s₂)
            ∧ s₂.ListsByInteger name ∧ s₂.get? key' = some other
            ∧ (¬ Binary64.Merged m n →
                old = t.storage.get? key' ∧ s₁.get? key' = t.storage.get? key'
                  ∧ s₂.get? key = some item ∧ item ∈ s₂.query key.partition [] true
                  ∧ other ∈ s₂.query key.partition [] true)
            ∧ (Binary64.Merged m n → old = some item ∧ s₂.get? key = some other) := by
  have hsound := (sound_of_run (MemoryStore.sound_empty clock) hr table t ht).storage
  have hcomparable : ∀ {x : Item} {k : PrimaryKey} {z : Int}, t.schema.extract x = .ok k →
      HasInteger name x z → k.place.Comparable := by
    intro x k z hk hz
    rw [KeySchema.place_of_extract hk, KeySchema.placeOf_of_hasInteger hsort hz]
    exact SortKey.comparable_integer hz.1
  have hc := hcomparable hkey hm
  have hc' := hcomparable hkey' hn
  have hsame := KeySchema.same_iff_merged hsort hkey hkey' hpart hm hn
  have hsame' := KeySchema.same_iff_merged hsort hkey' hkey hpart.symm hn hm
  have h₁ := hsound.putAt hkey hc
  have h₂ := h₁.putAt hkey' hc'
  -- what each put makes of the place of the other item
  have hget₁ := Storage.get?_putAt hsound hc hc' item
  have hget₂ := Storage.get?_putAt h₁ hc' hc other
  rw [Storage.get?_putAt_self] at hget₂
  refine ⟨⟨Json.ofText_toString hm.1, Validator.parse_number_ofInt m⟩,
    Binary64.not_merged hm.1 hn.1 hmn, hsound.listsByInteger hsort, _, _, _,
    Storage.put_of_extract hkey, Storage.put_of_extract hkey', h₂.listsByInteger hsort,
    Storage.get?_putAt_self _ key' other, ?_, ?_⟩
  · intro hmerged
    rw [if_neg fun hsm => hmerged (hsame'.mp hsm).symm] at hget₁
    rw [if_neg fun hsm => hmerged (hsame.mp hsm)] at hget₂
    refine ⟨hget₁, hget₁, hget₂, h₂.mem_query_of_get? hkey hget₂, ?_⟩
    rw [hpart]
    exact h₂.mem_query_of_get? hkey' (Storage.get?_putAt_self _ key' other)
  · intro hmerged
    rw [if_pos (hsame'.mpr hmerged.symm)] at hget₁
    rw [if_pos (hsame.mpr hmerged)] at hget₂
    exact ⟨hget₁, hget₂⟩

/-! ## Readings by second -/

/-- A table of readings by sensor and second. -/
def readingsRequest : CreateTableRequest where
  table := "readings"
  keys := [⟨"sensor", .hash⟩, ⟨"second", .range⟩]
  definitions := [⟨"sensor", .string⟩, ⟨"second", .number⟩]

/-- The empty table of readings. -/
def readings : StoredTable where
  definition := readingsRequest
  indexes := []
  created := 0
  storage := { schema := ⟨⟨"sensor", .string⟩, some ⟨"second", .number⟩⟩ }

/-- A reading at a second, with its key alone. -/
def reading (second : Int) : Item :=
  (Dict.empty.insert "sensor" (.string "a")).insert "second" (.number (toString second))

/-- The key of a reading. -/
def readingKey (second : Int) : PrimaryKey := ⟨.string "a", some (.number (toString second))⟩

theorem extract_reading (second : Int) :
    readings.schema.extract (reading second) = .ok (readingKey second) := rfl

/-- Create the table of readings and put a reading. -/
def firstReading : List StoreCall :=
  [.createTable readingsRequest, .put { table := "readings", item := reading 7 }]

/-- The table of readings with its first reading. -/
def readReadings : StoredTable :=
  { readings with storage := readings.storage.putAt (readingKey 7) (reading 7) }

/-- The greatest integers that are not merged are stored side by side. -/
theorem readings_sideBySide :
    AllAlong (fun s c => c.Readable s) { clock := 0 } firstReading
      ∧ (runCalls { clock := 0 } firstReading).tables.get? "readings" = some readReadings
      ∧ ∃ s₁ s₂ old,
          readReadings.storage.put (reading 9007199254740991) = .ok (none, s₁)
            ∧ s₁.put (reading 9007199254740992) = .ok (old, s₂)
            ∧ s₂.get? (readingKey 9007199254740991) = some (reading 9007199254740991)
            ∧ s₂.get? (readingKey 9007199254740992) = some (reading 9007199254740992) := by
  have hr : AllAlong (fun s c => c.Readable s) { clock := 0 } firstReading := by
    refine ⟨nofun, StoreCall.readable_put fun t ht => ?_, trivial⟩
    have htable : t = readings := Option.some.inj (ht.symm.trans rfl)
    rw [htable]
    intro _
    decide
  have ht : (runCalls { clock := 0 } firstReading).tables.get? "readings" = some readReadings := rfl
  have hm : HasInteger "second" (reading 9007199254740991) 9007199254740991 :=
    ⟨⟨by decide, by decide⟩, rfl⟩
  have hn : HasInteger "second" (reading 9007199254740992) 9007199254740992 :=
    ⟨⟨by decide, by decide⟩, rfl⟩
  obtain ⟨-, hsmall, -, s₁, s₂, old, hput, hput', -, hget', happart, -⟩ :=
    integerKeys_of_run 0 firstReading hr ht rfl (extract_reading 9007199254740991)
      (extract_reading 9007199254740992) rfl hm hn (by decide)
  obtain ⟨-, -, hget, -⟩ := happart (hsmall (Or.inl (by decide)))
  exact ⟨hr, ht, s₁, s₂, old, hput, hput', hget, hget'⟩

/-- The next two integers are merged: the reading of the second one replaces that of the first. -/
theorem reading_replaced :
    (runCalls { clock := 0 } [.createTable readingsRequest]).tables.get? "readings" = some readings
      ∧ HasInteger "second" (reading 9007199254740992) 9007199254740992
      ∧ HasInteger "second" (reading 9007199254740993) 9007199254740993
      ∧ ∃ s₁ s₂,
          readings.storage.put (reading 9007199254740992) = .ok (none, s₁)
            ∧ s₁.put (reading 9007199254740993) = .ok (some (reading 9007199254740992), s₂)
            ∧ s₂.get? (readingKey 9007199254740992) = some (reading 9007199254740993)
            ∧ reading 9007199254740993 ≠ reading 9007199254740992 :=
  ⟨rfl, ⟨⟨by decide, by decide⟩, rfl⟩, ⟨⟨by decide, by decide⟩, rfl⟩, _, _, rfl, rfl, rfl, by decide⟩

end SingleTable
