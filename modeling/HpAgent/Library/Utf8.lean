import Mathlib.Data.Nat.Basic
import Mathlib.Data.List.Basic
import Mathlib.Tactic.SplitIfs

/-! # Decoding UTF-8 as it arrives

Bytes are natural numbers below 256.  `encodeChar` writes the one to four bytes of a character.  The decoder takes one
byte at a time and keeps the unfinished character in its state, so where the bytes are cut makes no difference
(`feedAll_append`); a byte that does not continue the character ends it with a replacement character.

`feedAll_encode` says that the decoder reads back every text from its bytes. -/

namespace HpAgent.Library.Utf8

/-- The bytes of a character. -/
def encodeChar (c : Char) : List ℕ :=
  let n := c.toNat
  if n < 0x80 then [n]
  else if n < 0x800 then [0xC0 + n / 64, 0x80 + n % 64]
  else if n < 0x10000 then [0xE0 + n / 4096, 0x80 + n / 64 % 64, 0x80 + n % 64]
  else [0xF0 + n / 262144, 0x80 + n / 4096 % 64, 0x80 + n / 64 % 64, 0x80 + n % 64]

def encode (text : List Char) : List ℕ := text.flatMap encodeChar

/-- The character that is being read: its value so far, the bytes still to come, and the bounds of the next one. -/
structure State where
  value : ℕ
  needed : ℕ
  lower : ℕ
  upper : ℕ
deriving DecidableEq, Repr

/-- Between two characters. -/
def ready : State := ⟨0, 0, 0x80, 0xBF⟩

def replacement : Char := Char.ofNat 0xFFFD

/-- The first byte of a character. -/
def lead (b : ℕ) : State × List Char :=
  if b < 0x80 then (ready, [Char.ofNat b])
  else if 0xC2 ≤ b ∧ b ≤ 0xDF then (⟨b - 0xC0, 1, 0x80, 0xBF⟩, [])
  else if 0xE0 ≤ b ∧ b ≤ 0xEF then
    (⟨b - 0xE0, 2, if b = 0xE0 then 0xA0 else 0x80, if b = 0xED then 0x9F else 0xBF⟩, [])
  else if 0xF0 ≤ b ∧ b ≤ 0xF4 then
    (⟨b - 0xF0, 3, if b = 0xF0 then 0x90 else 0x80, if b = 0xF4 then 0x8F else 0xBF⟩, [])
  else (ready, [replacement])

/-- One byte. -/
def feed (st : State) (b : ℕ) : State × List Char :=
  if st.needed = 0 then lead b
  else if b < st.lower ∨ st.upper < b then
    let r := lead b
    (r.1, replacement :: r.2)
  else
    let value := st.value * 64 + (b - 0x80)
    if st.needed = 1 then (ready, [Char.ofNat value]) else (⟨value, st.needed - 1, 0x80, 0xBF⟩, [])

def feedAll : State → List ℕ → State × List Char
  | st, [] => (st, [])
  | st, b :: rest =>
      let r := feed st b
      let s := feedAll r.1 rest
      (s.1, r.2 ++ s.2)

/-- The end of the bytes. -/
def flush (st : State) : List Char := if st.needed = 0 then [] else [replacement]

theorem feedAll_append (st : State) (bs cs : List ℕ) :
    feedAll st (bs ++ cs) =
      ((feedAll (feedAll st bs).1 cs).1, (feedAll st bs).2 ++ (feedAll (feedAll st bs).1 cs).2) := by
  induction bs generalizing st with
  | nil => rfl
  | cons b rest ih =>
      show ((feedAll (feed st b).1 (rest ++ cs)).1, (feed st b).2 ++ (feedAll (feed st b).1 (rest ++ cs)).2) = _
      rw [ih]
      simp only [feedAll, List.append_assoc]

/-! ### Reading a character back -/

theorem feed_more {v k d lower upper : ℕ} (hlower : lower ≤ 0x80 + d) (hupper : 0x80 + d ≤ upper) :
    feed ⟨v, k + 2, lower, upper⟩ (0x80 + d) = (⟨v * 64 + d, k + 1, 0x80, 0xBF⟩, []) := by
  unfold feed
  dsimp only
  rw [if_neg (by omega), if_neg (by omega), if_neg (by omega), Nat.add_sub_cancel_left]
  rfl

theorem feed_last {v d lower upper : ℕ} (hlower : lower ≤ 0x80 + d) (hupper : 0x80 + d ≤ upper) :
    feed ⟨v, 1, lower, upper⟩ (0x80 + d) = (ready, [Char.ofNat (v * 64 + d)]) := by
  unfold feed
  dsimp only
  rw [if_neg (by omega), if_neg (by omega), if_pos rfl, Nat.add_sub_cancel_left]

theorem lead_two {v : ℕ} (hlow : 2 ≤ v) (hhigh : v < 32) : feed ready (0xC0 + v) = (⟨v, 1, 0x80, 0xBF⟩, []) := by
  show lead (0xC0 + v) = _
  unfold lead
  rw [if_neg (by omega), if_pos (by omega), Nat.add_sub_cancel_left]

theorem lead_three {v : ℕ} (hhigh : v < 16) :
    feed ready (0xE0 + v) = (⟨v, 2, if v = 0 then 0xA0 else 0x80, if v = 13 then 0x9F else 0xBF⟩, []) := by
  show lead (0xE0 + v) = _
  unfold lead
  rw [if_neg (by omega), if_neg (by omega), if_pos (by omega), Nat.add_sub_cancel_left]
  simp only [Nat.add_eq_left, show 0xE0 + v = 0xED ↔ v = 13 by omega]

theorem lead_four {v : ℕ} (hhigh : v ≤ 4) :
    feed ready (0xF0 + v) = (⟨v, 3, if v = 0 then 0x90 else 0x80, if v = 4 then 0x8F else 0xBF⟩, []) := by
  show lead (0xF0 + v) = _
  unfold lead
  rw [if_neg (by omega), if_neg (by omega), if_neg (by omega), if_pos (by omega), Nat.add_sub_cancel_left]
  simp only [Nat.add_eq_left, show 0xF0 + v = 0xF4 ↔ v = 4 by omega]

/-- The numbers of characters. -/
theorem toNat_valid (c : Char) : c.toNat < 0xD800 ∨ (0xDFFF < c.toNat ∧ c.toNat < 0x110000) := c.valid

/-- A character is read back from its bytes. -/
theorem feedAll_encodeChar (c : Char) : feedAll ready (encodeChar c) = (ready, [c]) := by
  have hvalid := toNat_valid c
  have hc : Char.ofNat c.toNat = c := Char.ofNat_toNat c
  unfold encodeChar
  dsimp only
  split_ifs with h1 h2 h3
  · have hlead : feed ready c.toNat = (ready, [c]) := by
      show lead c.toNat = _
      unfold lead
      rw [if_pos h1, hc]
    simp only [feedAll, hlead, List.append_nil]
  · have hvalue : c.toNat / 64 * 64 + c.toNat % 64 = c.toNat := Nat.div_add_mod' _ _
    simp only [feedAll, lead_two (v := c.toNat / 64) (by omega) (by omega),
      feed_last (v := c.toNat / 64) (d := c.toNat % 64) (show 0x80 ≤ 0x80 + c.toNat % 64 by omega)
        (show 0x80 + c.toNat % 64 ≤ 0xBF by omega), hvalue, hc,
      List.append_nil, List.nil_append]
  · have hvalue : (c.toNat / 4096 * 64 + c.toNat / 64 % 64) * 64 + c.toNat % 64 = c.toNat := by omega
    have hlower : (if c.toNat / 4096 = 0 then 0xA0 else 0x80) ≤ 0x80 + c.toNat / 64 % 64 := by
      split_ifs <;> omega
    have hupper : 0x80 + c.toNat / 64 % 64 ≤ if c.toNat / 4096 = 13 then 0x9F else 0xBF := by
      split_ifs <;> omega
    simp only [feedAll, lead_three (v := c.toNat / 4096) (by omega), feed_more hlower hupper,
      feed_last (v := c.toNat / 4096 * 64 + c.toNat / 64 % 64) (d := c.toNat % 64) (show 0x80 ≤ 0x80 + c.toNat % 64 by omega)
        (show 0x80 + c.toNat % 64 ≤ 0xBF by omega), hvalue, hc, List.append_nil, List.nil_append]
  · have hvalue : ((c.toNat / 262144 * 64 + c.toNat / 4096 % 64) * 64 + c.toNat / 64 % 64) * 64 + c.toNat % 64 = c.toNat := by
      omega
    have hlower : (if c.toNat / 262144 = 0 then 0x90 else 0x80) ≤ 0x80 + c.toNat / 4096 % 64 := by
      split_ifs <;> omega
    have hupper : 0x80 + c.toNat / 4096 % 64 ≤ if c.toNat / 262144 = 4 then 0x8F else 0xBF := by
      split_ifs <;> omega
    simp only [feedAll, lead_four (v := c.toNat / 262144) (by omega), feed_more hlower hupper,
      feed_more (v := c.toNat / 262144 * 64 + c.toNat / 4096 % 64) (k := 0) (d := c.toNat / 64 % 64)
        (show 0x80 ≤ 0x80 + c.toNat / 64 % 64 by omega) (show 0x80 + c.toNat / 64 % 64 ≤ 0xBF by omega),
      feed_last (v := (c.toNat / 262144 * 64 + c.toNat / 4096 % 64) * 64 + c.toNat / 64 % 64) (d := c.toNat % 64)
        (show 0x80 ≤ 0x80 + c.toNat % 64 by omega) (show 0x80 + c.toNat % 64 ≤ 0xBF by omega),
      hvalue, hc, List.append_nil, List.nil_append]

theorem feedAll_encode (text : List Char) : feedAll ready (encode text) = (ready, text) := by
  induction text with
  | nil => rfl
  | cons c rest ih =>
      show feedAll ready (encodeChar c ++ encode rest) = _
      rw [feedAll_append, feedAll_encodeChar, ih]
      rfl

end HpAgent.Library.Utf8
