import SingleTable.Proofs.Outcome
import SingleTable.Text.Base64

set_option autoImplicit false

/-!
# Canonical base64

The format of base64 as a relation between symbols and bytes (`Spells`): four symbols stand for three
bytes, and the last group may be filled up with padding if the bits that are left over are zero. Reading
accepts exactly the texts that spell bytes (`decode_eq_ok_iff_spells`), and bytes are spelled by one text
only, the one that is written (`decode_eq_ok_iff`).
-/

namespace SingleTable

namespace Base64

/-! ## Symbols -/

/-- The byte of a symbol. -/
def symbolByte (n : Nat) : UInt8 := (symbol n).toUInt8

theorem value?_symbolByte {n : Nat} (h : n < 64) : value? (symbolByte n) = some n := by
  have hall : ∀ i : Fin 64, value? (symbolByte i) = some i.val := by decide
  exact hall ⟨n, h⟩

theorem symbolByte_ne_pad {n : Nat} (h : n < 64) : symbolByte n ≠ pad := by
  have hall : ∀ i : Fin 64, symbolByte i ≠ pad := by decide
  exact hall ⟨n, h⟩

theorem utf8Size_symbol (n : Nat) : (symbol n).utf8Size = 1 := by
  by_cases h : n < 64
  · have hall : ∀ i : Fin 64, (symbol i).utf8Size = 1 := by decide
    exact hall ⟨n, h⟩
  · rw [symbol, if_neg (by omega), if_neg (by omega), if_neg (by omega), if_neg (by omega)]
    rfl

theorem value?_inj {b c : UInt8} {n : Nat} (hb : value? b = some n) (hc : value? c = some n) :
    b = c := by
  refine UInt8.toNat_inj.mp ?_
  grind [value?]

/-- The symbols of the alphabet have values, and no other bytes. -/
theorem value?_eq_some_iff {b : UInt8} {n : Nat} :
    value? b = some n ↔ n < 64 ∧ b = symbolByte n := by
  constructor
  · intro h
    have hn : n < 64 := by grind [value?]
    exact ⟨hn, value?_inj h (value?_symbolByte hn)⟩
  · rintro ⟨hn, rfl⟩
    exact value?_symbolByte hn

theorem valueAt_eq_ok_iff {offset : Nat} {b : UInt8} {n : Nat} :
    valueAt offset b = .ok n ↔ n < 64 ∧ b = symbolByte n := by
  rw [← value?_eq_some_iff, valueAt]
  cases value? b with
  | none => simp
  | some m => simp

example : (List.range 64).map symbol
    = "ABCDEFGHIJKLMNOPQRSTUVWXYZabcdefghijklmnopqrstuvwxyz0123456789+/".toList := by decide

/-! ## The format -/

/-- The symbols spell the bytes: four symbols stand for three bytes. The last group may stand for two
bytes or for one; it is then filled up with padding, and the bits that are left over are zero. -/
inductive Spells : List Char → Bytes → Prop
  | nil : Spells [] []
  | one {a b : Nat} (ha : a < 64) (hb : b < 64) (hleft : b % 16 = 0) :
      Spells [symbol a, symbol b, '=', '='] [UInt8.ofNat (a * 4 + b / 16)]
  | two {a b c n : Nat} (ha : a < 64) (hb : b < 64) (hc : c < 64) (hleft : c % 4 = 0)
      (hn : n = (a * 64 + b) * 16 + c / 4) :
      Spells [symbol a, symbol b, symbol c, '='] [UInt8.ofNat (n / 256), UInt8.ofNat (n % 256)]
  | group {a b c d n : Nat} {cs : List Char} {bytes : Bytes} (ha : a < 64) (hb : b < 64)
      (hc : c < 64) (hd : d < 64) (hn : n = ((a * 64 + b) * 64 + c) * 64 + d) (h : Spells cs bytes) :
      Spells (symbol a :: symbol b :: symbol c :: symbol d :: cs)
        (UInt8.ofNat (n / 65536) :: UInt8.ofNat (n / 256 % 256) :: UInt8.ofNat (n % 256) :: bytes)

namespace Spells

variable {cs : List Char} {bytes : Bytes}

/-- A text is made of whole groups. -/
theorem length_mod (h : Spells cs bytes) : cs.length % 4 = 0 := by
  induction h with
  | group _ _ _ _ _ _ ih =>
      simp only [List.length_cons]
      omega
  | _ => simp

/-- A text takes one byte for every character. -/
theorem utf8Size_eq (h : Spells cs bytes) : ∀ c ∈ cs, c.utf8Size = 1 := by
  have hpad : ('=' : Char).utf8Size = 1 := rfl
  induction h with
  | nil => simp
  | one => simp [utf8Size_symbol, hpad]
  | two => simp [utf8Size_symbol, hpad]
  | group _ _ _ _ _ _ ih => simpa [utf8Size_symbol] using ih

/-- No other symbols spell the bytes than those that are written. -/
theorem eq_encodeChars (h : Spells cs bytes) : cs = encodeChars bytes := by
  induction h with
  | nil => rfl
  | @one a b ha hb hleft =>
      have hbyte : (a * 4 + b / 16) % 256 = a * 4 + b / 16 := by omega
      have ha' : (a * 4 + b / 16) / 4 = a := by omega
      have hb' : (a * 4 + b / 16) % 4 * 16 = b := by omega
      simp only [encodeChars, UInt8.toNat_ofNat', Nat.reducePow, hbyte, ha', hb']
  | @two a b c n ha hb hc hleft hn =>
      have hbytes : n / 256 % 256 * 256 + n % 256 % 256 = n := by omega
      have ha' : n / 1024 = a := by omega
      have hb' : n / 16 % 64 = b := by omega
      have hc' : n % 16 * 4 = c := by omega
      simp only [encodeChars, UInt8.toNat_ofNat', Nat.reducePow, hbytes, ha', hb', hc']
  | @group a b c d n cs bytes ha hb hc hd hn h ih =>
      -- three bytes together are the number that the four symbols make
      have hbytes : (n / 65536 % 256 * 256 + n / 256 % 256 % 256) * 256 + n % 256 % 256 = n := by
        omega
      have ha' : n / 262144 = a := by omega
      have hb' : n / 4096 % 64 = b := by omega
      have hc' : n / 64 % 64 = c := by omega
      have hd' : n % 64 = d := by omega
      simp only [encodeChars, UInt8.toNat_ofNat', Nat.reducePow, hbytes, ha', hb', hc', hd', ih]

end Spells

/-- What is written spells the bytes. -/
theorem spells_encodeChars (bytes : Bytes) : Spells (encodeChars bytes) bytes := by
  fun_induction encodeChars bytes with
  | case1 => exact .nil
  | case2 x n =>
      have hx : n < 256 := x.toNat_lt
      have hback : n / 4 * 4 + n % 4 * 16 / 16 = n := by omega
      have h := Spells.one (a := n / 4) (b := n % 4 * 16) (by omega) (by omega) (by omega)
      rwa [hback, UInt8.ofNat_toNat] at h
  | case3 x y n =>
      have hx := x.toNat_lt
      have hy := y.toNat_lt
      have hn : n = x.toNat * 256 + y.toNat := rfl
      have hhigh : n / 256 = x.toNat := by omega
      have hlow : n % 256 = y.toNat := by omega
      have h := Spells.two (a := n / 1024) (b := n / 16 % 64) (c := n % 16 * 4) (n := n) (by omega)
        (by omega) (by omega) (by omega) (by omega)
      rwa [hhigh, hlow, UInt8.ofNat_toNat, UInt8.ofNat_toNat] at h
  | case4 x y z rest n ih =>
      have hx := x.toNat_lt
      have hy := y.toNat_lt
      have hz := z.toNat_lt
      have hn : n = (x.toNat * 256 + y.toNat) * 256 + z.toNat := rfl
      have hhigh : n / 65536 = x.toNat := by omega
      have hmiddle : n / 256 % 256 = y.toNat := by omega
      have hlow : n % 256 = z.toNat := by omega
      have h := Spells.group (a := n / 262144) (b := n / 4096 % 64) (c := n / 64 % 64) (d := n % 64)
        (n := n) (by omega) (by omega) (by omega) (by omega) (by omega) ih
      rwa [hhigh, hmiddle, hlow, UInt8.ofNat_toNat, UInt8.ofNat_toNat, UInt8.ofNat_toNat] at h

/-! ## The last group -/

/-- Once padding has started, nothing else follows. -/
theorem readTail_of_padding {start i : Nat} {tail tail' : Tail} {bs : Bytes}
    (hpad : 0 < tail.padding) (h : readTail start i tail bs = .ok tail') :
    ∃ k, bs = List.replicate k pad ∧ tail'.values = tail.values
      ∧ tail'.padding = tail.padding + k := by
  induction bs generalizing i tail with
  | nil =>
      cases h
      exact ⟨0, rfl, rfl, rfl⟩
  | cons b rest ih =>
      rw [readTail] at h
      split at h
      · rename_i hb
        split at h
        · cases h
        · obtain ⟨k, hrest, hvalues, hpadding⟩ := ih (by simp) h
          refine ⟨k + 1, ?_, hvalues, ?_⟩
          · rw [hb, hrest, List.replicate_succ]
          · simp only at hpadding
            omega
      · cases h

/-- A last group consists of symbols and then of padding, which does not start before the third
place. -/
theorem values_of_readTail {start i : Nat} {tail tail' : Tail} {bs : Bytes}
    (hpad : tail.padding = 0) (h : readTail start i tail bs = .ok tail') :
    ∃ values k, bs = values.map symbolByte ++ List.replicate k pad ∧ (∀ n ∈ values, n < 64)
      ∧ tail'.values = tail.values ++ values ∧ tail'.padding = k
      ∧ (0 < k → 2 ≤ i + values.length) := by
  induction bs generalizing i tail with
  | nil =>
      cases h
      exact ⟨[], 0, rfl, by simp, by simp, hpad, by simp⟩
  | cons b rest ih =>
      rw [readTail] at h
      split at h
      · -- padding: all that follows is padding too
        rename_i hb
        split at h
        · cases h
        · obtain ⟨k, hrest, hvalues, hpadding⟩ := readTail_of_padding (by simp) h
          refine ⟨[], k + 1, ?_, by simp, by simpa using hvalues, ?_, ?_⟩
          · rw [hb, hrest]
            rfl
          · simp only at hpadding
            omega
          · simp only [List.length_nil]
            omega
      · rw [if_neg (by omega)] at h
        obtain ⟨n, hn, hread⟩ := bind_eq_ok_iff.mp h
        obtain ⟨values, k, hrest, hall, hvalues, hpadding, hplace⟩ := ih (by exact hpad) hread
        obtain ⟨hlt, hb⟩ := valueAt_eq_ok_iff.mp hn
        refine ⟨n :: values, k, ?_, ?_, ?_, hpadding, ?_⟩
        · rw [hb, hrest]
          rfl
        · simpa using ⟨hlt, hall⟩
        · simpa using hvalues
        · simp only [List.length_cons]
          omega

theorem readTail_symbolByte {start i : Nat} {tail : Tail} {n : Nat} (hn : n < 64)
    (hpad : tail.padding = 0) (rest : Bytes) :
    readTail start i tail (symbolByte n :: rest)
      = readTail start (i + 1)
          { tail with values := tail.values ++ [n], last := symbolByte n } rest := by
  rw [readTail, if_neg (symbolByte_ne_pad hn), if_neg (by omega), valueAt_eq_ok_iff.mpr ⟨hn, rfl⟩]
  rfl

theorem spells_of_decodeTail {start : Nat} {bs bytes : Bytes} (hlen : bs.length ≤ 4)
    (h : decodeTail start bs = .ok bytes) : ∃ cs, bs = cs.map Char.toUInt8 ∧ Spells cs bytes := by
  obtain ⟨tail, htail, hread⟩ := bind_eq_ok_iff.mp h
  clear h
  obtain ⟨values, k, rfl, hall, hvalues, hpadding, hplace⟩ := values_of_readTail rfl htail
  rw [List.length_append, List.length_map, List.length_replicate] at hlen
  rw [show tail.values = values from hvalues, hpadding] at hread
  -- the number of symbols decides what the group stands for
  rcases values with _ | ⟨a, _ | ⟨b, _ | ⟨c, _ | ⟨d, rest⟩⟩⟩⟩
  · obtain rfl : k = 0 := by
      simp only [List.length_nil] at hplace
      omega
    simp only at hread
    split at hread
    · cases hread
      exact ⟨[], rfl, .nil⟩
    · cases hread
  · cases hread
  · simp only at hread
    split at hread
    · cases hread
    · obtain rfl : k = 2 := by omega
      split at hread
      · cases hread
      · rename_i hleft
        cases hread
        exact ⟨_, rfl, .one (hall a (by simp)) (hall b (by simp)) (by omega)⟩
  · simp only at hread
    split at hread
    · cases hread
    · obtain rfl : k = 1 := by omega
      split at hread
      · cases hread
      · rename_i hleft
        cases hread
        exact ⟨_, rfl, .two (hall a (by simp)) (hall b (by simp)) (hall c (by simp)) (by omega) rfl⟩
  · simp only [List.length_cons] at hlen
    obtain rfl : rest = [] := List.length_eq_zero_iff.mp (by omega)
    obtain rfl : k = 0 := by
      simp only [List.length_nil] at hlen
      omega
    cases hread
    exact ⟨_, rfl, .group (hall a (by simp)) (hall b (by simp)) (hall c (by simp)) (hall d (by simp))
      rfl .nil⟩

theorem decodeTail_of_spells {start : Nat} {cs : List Char} {bytes : Bytes} (h : Spells cs bytes)
    (hlen : cs.length ≤ 4) (hstart : cs = [] → start = 0) :
    decodeTail start (cs.map Char.toUInt8) = .ok bytes := by
  cases h with
  | nil =>
      obtain rfl := hstart rfl
      rfl
  | @one a b ha hb hleft =>
      show decodeTail start [symbolByte a, symbolByte b, pad, pad] = _
      rw [decodeTail, readTail_symbolByte ha rfl, readTail_symbolByte hb rfl]
      simp [readTail, hleft, bind, Except.bind, pure, Except.pure]
  | @two a b c n ha hb hc hleft hn =>
      show decodeTail start [symbolByte a, symbolByte b, symbolByte c, pad] = _
      rw [decodeTail, readTail_symbolByte ha rfl, readTail_symbolByte hb rfl,
        readTail_symbolByte hc rfl]
      simp [readTail, hleft, hn, bind, Except.bind, pure, Except.pure]
  | @group a b c d n cs bytes ha hb hc hd hn h =>
      obtain rfl : cs = [] := by
        simp only [List.length_cons] at hlen
        exact List.length_eq_zero_iff.mp (by omega)
      cases h
      show decodeTail start [symbolByte a, symbolByte b, symbolByte c, symbolByte d] = _
      rw [decodeTail, readTail_symbolByte ha rfl, readTail_symbolByte hb rfl,
        readTail_symbolByte hc rfl, readTail_symbolByte hd rfl, hn]
      rfl

/-! ## All groups -/

theorem spells_of_decodeGroups {start : Nat} {bs bytes : Bytes}
    (h : decodeGroups start bs = .ok bytes) : ∃ cs, bs = cs.map Char.toUInt8 ∧ Spells cs bytes := by
  fun_induction decodeGroups start bs generalizing bytes with
  | case1 start a b c d e rest ih =>
      simp only [bind_eq_ok_iff, pure_eq_ok_iff] at h
      obtain ⟨a', ha, b', hb, c', hc, d', hd, more, hmore, rfl⟩ := h
      obtain ⟨cs, hrest, hcs⟩ := ih hmore
      obtain ⟨ha', rfl⟩ := valueAt_eq_ok_iff.mp ha
      obtain ⟨hb', rfl⟩ := valueAt_eq_ok_iff.mp hb
      obtain ⟨hc', rfl⟩ := valueAt_eq_ok_iff.mp hc
      obtain ⟨hd', rfl⟩ := valueAt_eq_ok_iff.mp hd
      refine ⟨_, ?_, .group ha' hb' hc' hd' rfl hcs⟩
      rw [hrest]
      rfl
  | case2 start bs hshort =>
      -- the last group is what is not followed by a fifth symbol
      refine spells_of_decodeTail ?_ h
      rcases bs with _ | ⟨a, _ | ⟨b, _ | ⟨c, _ | ⟨d, _ | ⟨e, rest⟩⟩⟩⟩⟩ <;> simp
      exact (hshort a b c d e rest rfl).elim

theorem decodeGroups_of_spells {start : Nat} {cs : List Char} {bytes : Bytes} (h : Spells cs bytes)
    (hstart : cs = [] → start = 0) : decodeGroups start (cs.map Char.toUInt8) = .ok bytes := by
  induction h generalizing start with
  | nil => exact decodeTail_of_spells .nil (by simp) hstart
  | one ha hb hleft => exact decodeTail_of_spells (.one ha hb hleft) (by simp) hstart
  | two ha hb hc hleft hn => exact decodeTail_of_spells (.two ha hb hc hleft hn) (by simp) hstart
  | @group a b c d n cs bytes ha hb hc hd hn h ih =>
      cases cs with
      | nil => exact decodeTail_of_spells (.group ha hb hc hd hn h) (by simp) (by simp)
      | cons e cs =>
          have hmore : decodeGroups (start + 4) ((e :: cs).map Char.toUInt8) = .ok bytes :=
            ih (by simp)
          rw [List.map_cons] at hmore
          show decodeGroups start (symbolByte a :: symbolByte b :: symbolByte c :: symbolByte d
            :: e.toUInt8 :: cs.map Char.toUInt8) = _
          rw [decodeGroups, valueAt_eq_ok_iff.mpr ⟨ha, rfl⟩, valueAt_eq_ok_iff.mpr ⟨hb, rfl⟩,
            valueAt_eq_ok_iff.mpr ⟨hc, rfl⟩, valueAt_eq_ok_iff.mpr ⟨hd, rfl⟩]
          simp only [hmore, bind, Except.bind, pure, Except.pure, hn]

/-! ## Texts -/

theorem utf8Bytes_ofList {cs : List Char} (h : ∀ c ∈ cs, c.utf8Size = 1) :
    utf8Bytes (String.ofList cs) = cs.map Char.toUInt8 := by
  have hflat : cs.flatMap String.utf8EncodeChar = cs.map Char.toUInt8 := by
    induction cs with
    | nil => rfl
    | cons c cs ih =>
        rw [List.flatMap_cons, ih fun d hd => h d (by simp [hd]),
          String.utf8EncodeChar_eq_singleton (h c (by simp))]
        rfl
  rw [utf8Bytes, String.toUTF8, String.toByteArray_ofList, List.utf8Encode, hflat,
    List.data_toByteArray]

theorem utf8Bytes_inj {s t : String} (h : utf8Bytes s = utf8Bytes t) : s = t :=
  String.toByteArray_inj.mp (ByteArray.ext (Array.toList_inj.mp h))

/-- Reading accepts exactly the texts that spell bytes. -/
theorem decode_eq_ok_iff_spells {text : String} {bytes : Bytes} :
    decode text = .ok bytes ↔ Spells text.toList bytes := by
  constructor
  · intro h
    rw [decode] at h
    split at h
    · cases h
    · obtain ⟨cs, hcs, hspells⟩ := spells_of_decodeGroups h
      -- the text has the bytes of the symbols, so it has no other characters
      rw [← utf8Bytes_ofList hspells.utf8Size_eq] at hcs
      rw [utf8Bytes_inj hcs, String.toList_ofList]
      exact hspells
  · intro h
    have hbytes : utf8Bytes text = text.toList.map Char.toUInt8 := by
      rw [← utf8Bytes_ofList h.utf8Size_eq, String.ofList_toList]
    have hwhole : strayByte? (text.toList.map Char.toUInt8) = none := by
      have hlen := h.length_mod
      rw [strayByte?, List.length_map, if_neg (by omega)]
    simp only [decode, hbytes, hwhole]
    exact decodeGroups_of_spells h (fun _ => rfl)

/-- Reading accepts exactly what is written. -/
theorem decode_eq_ok_iff {text : String} {bytes : Bytes} :
    decode text = .ok bytes ↔ text = encode bytes := by
  rw [decode_eq_ok_iff_spells, encode]
  constructor
  · intro h
    rw [← h.eq_encodeChars, String.ofList_toList]
  · rintro rfl
    rw [String.toList_ofList]
    exact spells_encodeChars bytes

end Base64

end SingleTable
