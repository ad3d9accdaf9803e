import Rebuild.Text.Utf8
import Mathlib.Tactic

/-!
# The language of the decoder

The decoder accepts exactly the bytes that are the encoding of some characters, and then gives these
characters.  An open sequence stands for the code points it may still become: those with the value
read so far in front, and with a next byte in its range.  What a lead byte admits, the rest of a
code point admits byte by byte.
-/

namespace Rebuild.Text

/-- The last `count` bytes of a code point, of six bits each. -/
def tailBytes : (count value : Nat) → List UInt8
  | 0, _ => []
  | count + 1, value => UInt8.ofNat (value / 64 ^ count % 64 + 0x80) :: tailBytes count value

@[simp] theorem length_tailBytes (count value : Nat) : (tailBytes count value).length = count := by
  induction count with
  | zero => rfl
  | succ count ih => simp [tailBytes, ih]

theorem exists_char_of_valid {value : Nat}
    (hvalid : value < 0xd800 ∨ 0xdfff < value ∧ value < 0x110000) :
    ∃ c : Char, c.toNat = value := by
  refine ⟨Char.ofNat value, ?_⟩
  rw [Char.ofNat, dif_pos hvalid]
  rfl

theorem map_eq_ok_iff {α β ε : Type} {f : α → β} {x : Except ε α} {b : β} :
    x.map f = .ok b ↔ ∃ a, x = .ok a ∧ f a = b := by
  cases x <;> simp [Except.map]

namespace OpenSequence

variable {sequence : OpenSequence} {b : UInt8} {count value : Nat}

/-- The code points that a sequence may become: the bits read stand in front, and the next byte is
in range. -/
structure Admits (sequence : OpenSequence) (value : Nat) : Prop where
  front : value / 64 ^ sequence.missing = sequence.value
  low : sequence.low.toNat ≤ value / 64 ^ (sequence.missing - 1) % 64 + 0x80
  high : value / 64 ^ (sequence.missing - 1) % 64 + 0x80 ≤ sequence.high.toNat

/-- The next byte is one that continues a sequence, with `count` more to come. -/
structure Awaits (sequence : OpenSequence) (count : Nat) : Prop where
  missing : sequence.missing = count + 1
  low : 0x80 ≤ sequence.low.toNat
  high : sequence.high.toNat ≤ 0xbf

theorem Awaits.extend (hawaits : sequence.Awaits (count + 1)) (b : UInt8) :
    (sequence.extend b).Awaits count where
  missing := by simp [OpenSequence.extend, hawaits.missing]
  low := le_rfl
  high := le_rfl

/-- A byte in range is the next byte of exactly the code points that the longer sequence still
admits. -/
theorem Awaits.admits_iff (hawaits : sequence.Awaits count) (hlow : sequence.low ≤ b)
    (hhigh : b ≤ sequence.high) :
    (sequence.Admits value ∧ UInt8.ofNat (value / 64 ^ count % 64 + 0x80) = b) ↔
      value / 64 ^ count = (sequence.extend b).value := by
  have hmark := hawaits.low
  have hlimit := hawaits.high
  rw [UInt8.le_iff_toNat_le] at hlow hhigh
  have hfront : value / 64 ^ (count + 1) = value / 64 ^ count / 64 := by
    rw [pow_succ, Nat.div_div_eq_div_mul]
  rw [← UInt8.toNat_inj, UInt8.toNat_ofNat']
  constructor
  · rintro ⟨hadmits, hbyte⟩
    have hvalue := hadmits.front
    rw [hawaits.missing, hfront] at hvalue
    simp only [OpenSequence.extend]
    omega
  · intro hvalue
    simp only [OpenSequence.extend] at hvalue
    refine ⟨⟨?_, ?_, ?_⟩, ?_⟩
    · rw [hawaits.missing, hfront]
      omega
    · rw [hawaits.missing, Nat.add_sub_cancel]
      omega
    · rw [hawaits.missing, Nat.add_sub_cancel]
      omega
    · omega

theorem Awaits.admits_extend_iff (hawaits : sequence.Awaits (count + 1)) (hlow : sequence.low ≤ b)
    (hhigh : b ≤ sequence.high) :
    (sequence.extend b).Admits value ↔
      sequence.Admits value ∧ UInt8.ofNat (value / 64 ^ (count + 1) % 64 + 0x80) = b := by
  have hmissing := (hawaits.extend b).missing
  rw [hawaits.admits_iff hlow hhigh]
  constructor
  · intro hadmits
    rw [← hadmits.front, hmissing]
  · intro hvalue
    refine ⟨by rw [hmissing, hvalue], ?_, ?_⟩
    · exact Nat.le_add_left _ _
    · have := Nat.mod_lt (value / 64 ^ ((sequence.extend b).missing - 1)) (show 0 < 64 by decide)
      change _ ≤ 0xbf
      omega

/-- The next byte of an admitted code point is in range. -/
theorem Awaits.range_of_admits (hawaits : sequence.Awaits count) (hadmits : sequence.Admits value) :
    sequence.low ≤ UInt8.ofNat (value / 64 ^ count % 64 + 0x80) ∧
      UInt8.ofNat (value / 64 ^ count % 64 + 0x80) ≤ sequence.high := by
  have hlow := hadmits.low
  have hhigh := hadmits.high
  rw [hawaits.missing, Nat.add_sub_cancel] at hlow hhigh
  rw [UInt8.le_iff_toNat_le, UInt8.le_iff_toNat_le, UInt8.toNat_ofNat']
  omega

/-- An open sequence is completed by the last bytes of a code point that it admits. -/
theorem Awaits.decodeFrom_eq_ok_iff (hawaits : sequence.Awaits count) {position : Nat}
    {bytes : List UInt8} {chars : List Char} :
    decodeFrom position (some sequence) bytes = .ok chars ↔
      ∃ value rest others, sequence.Admits value ∧ bytes = tailBytes (count + 1) value ++ rest ∧
        chars = Char.ofNat value :: others ∧
        decodeFrom (position + (count + 1)) none rest = .ok others := by
  induction count generalizing sequence position bytes with
  | zero =>
      rcases bytes with - | ⟨b, bytes⟩
      · exact ⟨nofun, fun ⟨_, _, _, _, hnil, _⟩ => nomatch hnil⟩
      · simp only [decodeFrom, tailBytes, List.cons_append, List.nil_append, List.cons.injEq]
        split_ifs with hrange hlast
        · have hadmits (value : Nat) :
              sequence.Admits value ∧ UInt8.ofNat (value % 64 + 0x80) = b ↔
                value = (sequence.extend b).value := by
            simpa using hawaits.admits_iff hrange.1 hrange.2
          rw [map_eq_ok_iff]
          constructor
          · rintro ⟨others, hothers, rfl⟩
            obtain ⟨hvalue, hbyte⟩ := (hadmits _).2 rfl
            exact ⟨_, bytes, others, hvalue, ⟨by simpa using hbyte.symm, rfl⟩, rfl, hothers⟩
          · rintro ⟨value, rest, others, hvalue, ⟨hbyte, rfl⟩, rfl, hothers⟩
            refine ⟨others, hothers, ?_⟩
            rw [(hadmits value).1 ⟨hvalue, by simpa using hbyte.symm⟩]
        · exact (hlast (by simp [OpenSequence.extend, hawaits.missing])).elim
        · refine ⟨nofun, ?_⟩
          rintro ⟨value, rest, others, hvalue, ⟨rfl, rfl⟩, -⟩
          exact (hrange (hawaits.range_of_admits hvalue)).elim
  | succ count ih =>
      rcases bytes with - | ⟨b, bytes⟩
      · exact ⟨nofun, fun ⟨_, _, _, _, hnil, _⟩ => nomatch hnil⟩
      · have htail (value : Nat) (rest : List UInt8) :
            b :: bytes = tailBytes (count + 2) value ++ rest ↔
            UInt8.ofNat (value / 64 ^ (count + 1) % 64 + 0x80) = b ∧
              bytes = tailBytes (count + 1) value ++ rest := by
          rw [tailBytes, List.cons_append, List.cons.injEq, eq_comm (a := b)]
        have hplace : position + 1 + (count + 1) = position + (count + 1 + 1) := by omega
        rw [decodeFrom]
        simp only [htail]
        split_ifs with hrange hlast
        · simp [(hawaits.extend b).missing] at hlast
        · rw [ih (hawaits.extend b), hplace]
          simp only [hawaits.admits_extend_iff hrange.1 hrange.2, and_assoc]
        · refine ⟨nofun, ?_⟩
          rintro ⟨value, rest, others, hvalue, ⟨rfl, -⟩, -⟩
          exact (hrange (hawaits.range_of_admits hvalue)).elim

theorem awaits_of_lead (hlead : ofLead? b = some sequence) :
    sequence.Awaits (sequence.missing - 1) := by
  unfold ofLead? at hlead
  split_ifs at hlead <;> cases hlead <;> exact ⟨rfl, by simp, by simp⟩

/-- A lead byte with the number of bytes behind it and a code point that these write. -/
inductive Leads (b : UInt8) : (count value : Nat) → Prop where
  | two {value : Nat} (hlead : b.toNat = value / 64 + 0xc0) (hlow : 0x80 ≤ value)
    (hhigh : value ≤ 0x7ff) : Leads b 1 value
  | three {value : Nat} (hlead : b.toNat = value / 4096 + 0xe0) (hlow : 0x800 ≤ value)
    (hvalid : value < 0xd800 ∨ 0xdfff < value) (hhigh : value ≤ 0xffff) : Leads b 2 value
  | four {value : Nat} (hlead : b.toNat = value / 262144 + 0xf0) (hlow : 0x10000 ≤ value)
    (hhigh : value ≤ 0x10ffff) : Leads b 3 value

theorem Leads.of_admits (hlead : ofLead? b = some sequence) (hadmits : sequence.Admits value) :
    Leads b sequence.missing value := by
  obtain ⟨hfront, hlow, hhigh⟩ := hadmits
  unfold ofLead? at hlead
  simp only [UInt8.le_iff_toNat_le, ← UInt8.toNat_inj, UInt8.reduceToNat] at hlead
  split_ifs at hlead with h1 h2 h3 h4 h5 h6 h7 <;> cases hlead <;>
    simp only [UInt8.reduceToNat, Nat.reduceSub, Nat.reducePow, Nat.div_one] at hfront hlow hhigh ⊢
  · exact .two (by omega) (by omega) (by omega)
  · exact .three (by omega) (by omega) (by omega) (by omega)
  · exact .three (by omega) (by omega) (by omega) (by omega)
  · exact .three (by omega) (by omega) (by omega) (by omega)
  · exact .four (by omega) (by omega) (by omega)
  · exact .four (by omega) (by omega) (by omega)
  · exact .four (by omega) (by omega) (by omega)

theorem Leads.exists_admits (hleads : Leads b count value) :
    ∃ sequence, ofLead? b = some sequence ∧ sequence.missing = count ∧ sequence.Admits value := by
  unfold ofLead?
  simp only [UInt8.le_iff_toNat_le, ← UInt8.toNat_inj, UInt8.reduceToNat]
  -- the size of the code point rules out the ranges of the other lead bytes
  cases hleads with
  | two hlead hlow hhigh =>
      rw [if_pos (by omega)]
      refine ⟨_, rfl, rfl, ⟨?_, ?_, ?_⟩⟩ <;> simp <;> omega
  | three hlead hlow hvalid hhigh =>
      split_ifs
      all_goals first | omega | refine ⟨_, rfl, rfl, ⟨?_, ?_, ?_⟩⟩ <;> simp <;> omega
  | four hlead hlow hhigh =>
      split_ifs
      all_goals first | omega | refine ⟨_, rfl, rfl, ⟨?_, ?_, ?_⟩⟩ <;> simp <;> omega

theorem Leads.utf8EncodeChar {c : Char} (hleads : Leads b count c.toNat) :
    String.utf8EncodeChar c = b :: tailBytes count c.toNat := by
  have hbyte {n : Nat} (hn : b.toNat = n) : UInt8.ofNat n = b := by rw [← hn, UInt8.ofNat_toNat]
  have hval : c.val.toNat = c.toNat := rfl
  rw [String.utf8EncodeChar, hval]
  cases hleads with
  | two hlead hlow hhigh =>
      rw [if_neg (by omega), if_pos hhigh, Nat.mod_eq_of_lt (by omega), hbyte hlead]
      simp [tailBytes]
  | three hlead hlow hvalid hhigh =>
      rw [if_neg (by omega), if_neg (by omega), if_pos hhigh, Nat.mod_eq_of_lt (by omega),
        hbyte hlead]
      simp [tailBytes]
  | four hlead hlow hhigh =>
      rw [if_neg (by omega), if_neg (by omega), if_neg (by omega), Nat.mod_eq_of_lt (by omega),
        hbyte hlead]
      simp [tailBytes]

theorem Leads.not_lt (hleads : Leads b count value) : ¬b < 0x80 := by
  intro hb
  simp only [UInt8.lt_iff_toNat_lt, UInt8.reduceToNat] at hb
  cases hleads <;> omega

theorem exists_leads {c : Char} (hc : 0x80 ≤ c.toNat) : ∃ b count, Leads b count c.toNat := by
  have hvalid : c.toNat < 0xd800 ∨ 0xdfff < c.toNat ∧ c.toNat < 0x110000 := c.valid
  have hbyte {n : Nat} (hn : n < 256) : (UInt8.ofNat n).toNat = n := by
    rw [UInt8.toNat_ofNat', Nat.mod_eq_of_lt hn]
  rcases le_or_gt c.toNat 0x7ff with htwo | htwo
  · exact ⟨_, _, .two (hbyte (by omega)) hc htwo⟩
  · rcases le_or_gt c.toNat 0xffff with hthree | hthree
    · exact ⟨_, _, .three (hbyte (by omega)) htwo (by omega) hthree⟩
    · exact ⟨_, _, .four (hbyte (by omega)) hthree (by omega)⟩

theorem Leads.exists_char (hleads : Leads b count value) : ∃ c : Char, c.toNat = value := by
  refine exists_char_of_valid ?_
  cases hleads <;> omega

end OpenSequence

open OpenSequence

variable {position : Nat} {b : UInt8} {bytes : List UInt8} {c : Char} {chars others : List Char}

theorem utf8EncodeChar_of_lt (hc : c.toNat < 0x80) :
    String.utf8EncodeChar c = [UInt8.ofNat c.toNat] :=
  if_pos (Nat.le_of_lt_succ hc)

theorem exists_char_of_lt (hb : b < 0x80) :
    ∃ c : Char, c.toNat < 0x80 ∧ UInt8.ofNat c.toNat = b := by
  have hlt : b.toNat < 0x80 := UInt8.lt_iff_toNat_lt.1 hb
  obtain ⟨c, hc⟩ := exists_char_of_valid (.inl (by omega : b.toNat < 0xd800))
  exact ⟨c, hc ▸ hlt, by rw [hc, UInt8.ofNat_toNat]⟩

theorem decodeFrom_of_lt (hc : c.toNat < 0x80) :
    decodeFrom position none (UInt8.ofNat c.toNat :: bytes) =
      (decodeFrom (position + 1) none bytes).map (c :: ·) := by
  have htoNat : (UInt8.ofNat c.toNat).toNat = c.toNat := by
    rw [UInt8.toNat_ofNat', Nat.mod_eq_of_lt (by omega)]
  have hb : UInt8.ofNat c.toNat < 0x80 := by
    rw [UInt8.lt_iff_toNat_lt, htoNat]
    exact hc
  rw [decodeFrom, if_pos hb, htoNat, Char.ofNat_toNat]

theorem decodeFrom_of_lead (hb : ¬b < 0x80) {sequence : OpenSequence}
    (hlead : ofLead? b = some sequence) :
    decodeFrom position none (b :: bytes) = decodeFrom (position + 1) (some sequence) bytes := by
  rw [decodeFrom, if_neg hb, hlead]

/-- One character is read off the front exactly when its encoding stands there. -/
theorem decodeFrom_eq_ok_cons_iff :
    decodeFrom position none bytes = .ok (c :: others) ↔
      ∃ rest, bytes = String.utf8EncodeChar c ++ rest ∧
        decodeFrom (position + (String.utf8EncodeChar c).length) none rest = .ok others := by
  constructor
  · intro hok
    rcases bytes with - | ⟨b, bytes⟩
    · cases hok
    by_cases hb : b < 0x80
    · obtain ⟨first, hfirst, rfl⟩ := exists_char_of_lt hb
      rw [decodeFrom_of_lt hfirst, map_eq_ok_iff] at hok
      obtain ⟨others, hothers, hcons⟩ := hok
      obtain ⟨rfl, rfl⟩ := List.cons.inj hcons
      rw [utf8EncodeChar_of_lt hfirst]
      exact ⟨bytes, rfl, hothers⟩
    · cases hlead : ofLead? b with
      | none =>
          rw [decodeFrom, if_neg hb, hlead] at hok
          cases hok
      | some sequence =>
          have hawaits := awaits_of_lead hlead
          rw [decodeFrom_of_lead hb hlead, hawaits.decodeFrom_eq_ok_iff, ← hawaits.missing] at hok
          obtain ⟨value, rest, others, hadmits, hbytes, hcons, hothers⟩ := hok
          have hleads := Leads.of_admits hlead hadmits
          obtain ⟨c, rfl⟩ := hleads.exists_char
          rw [Char.ofNat_toNat] at hcons
          obtain ⟨rfl, rfl⟩ := List.cons.inj hcons
          refine ⟨rest, by rw [hleads.utf8EncodeChar, hbytes, List.cons_append], ?_⟩
          rwa [hleads.utf8EncodeChar, List.length_cons, length_tailBytes, Nat.add_comm _ 1,
            ← Nat.add_assoc]
  · rintro ⟨rest, rfl, hothers⟩
    rcases lt_or_ge c.toNat 0x80 with hc | hc
    · rw [utf8EncodeChar_of_lt hc] at hothers ⊢
      rw [List.singleton_append, decodeFrom_of_lt hc, map_eq_ok_iff]
      exact ⟨others, hothers, rfl⟩
    · obtain ⟨b, count, hleads⟩ := exists_leads hc
      obtain ⟨sequence, hlead, rfl, hadmits⟩ := hleads.exists_admits
      have hawaits := awaits_of_lead hlead
      rw [hleads.utf8EncodeChar, List.length_cons, length_tailBytes] at hothers
      rw [hleads.utf8EncodeChar, List.cons_append, decodeFrom_of_lead hleads.not_lt hlead,
        hawaits.decodeFrom_eq_ok_iff, ← hawaits.missing]
      refine ⟨c.toNat, rest, others, hadmits, rfl, by rw [Char.ofNat_toNat], ?_⟩
      rwa [Nat.add_right_comm, Nat.add_assoc]

theorem bytes_eq_nil_of_decodeFrom (hok : decodeFrom position none bytes = .ok []) :
    bytes = [] := by
  cases bytes with
  | nil => rfl
  | cons b bytes =>
      rw [decodeFrom] at hok
      split_ifs at hok
      · obtain ⟨others, -, hcons⟩ := map_eq_ok_iff.1 hok
        cases hcons
      · split at hok
        next sequence hlead =>
          obtain ⟨_, _, _, _, _, hcons, _⟩ := (awaits_of_lead hlead).decodeFrom_eq_ok_iff.1 hok
          cases hcons
        next => cases hok

theorem decodeFrom_eq_ok_iff :
    decodeFrom position none bytes = .ok chars ↔ bytes = chars.flatMap String.utf8EncodeChar := by
  induction chars generalizing position bytes with
  | nil => exact ⟨bytes_eq_nil_of_decodeFrom, by rintro rfl; rfl⟩
  | cons c others ih =>
      simp only [decodeFrom_eq_ok_cons_iff, ih, List.flatMap_cons, exists_eq_right]

/-- The bytes that are text are the encodings. -/
theorem decodeUtf8_eq_ok_iff :
    decodeUtf8 bytes = .ok chars ↔ bytes = chars.flatMap String.utf8EncodeChar :=
  decodeFrom_eq_ok_iff

end Rebuild.Text
