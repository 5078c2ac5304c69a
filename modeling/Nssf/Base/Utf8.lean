import Mathlib.Data.List.Basic

/-! Byte sequences in UTF-8. A byte below `0x80` stands for itself wherever it occurs, so a
sequence can be taken apart there. -/

namespace Nssf.Base

/-- The bytes of a code point. -/
def utf8 (n : ℕ) : List Char :=
  if n < 0x80 then [Char.ofNat n]
  else if n < 0x800 then [Char.ofNat (0xc0 + n / 64), Char.ofNat (0x80 + n % 64)]
  else if n < 0x10000 then
    [Char.ofNat (0xe0 + n / 4096), Char.ofNat (0x80 + n / 64 % 64), Char.ofNat (0x80 + n % 64)]
  else
    [Char.ofNat (0xf0 + n / 262144), Char.ofNat (0x80 + n / 4096 % 64),
      Char.ofNat (0x80 + n / 64 % 64), Char.ofNat (0x80 + n % 64)]

/-- The bytes are those of a sequence of characters. -/
def Utf8 (cs : List Char) : Prop := ∃ s : List Char, cs = s.flatMap fun c => utf8 c.toNat

theorem utf8_ascii {n : ℕ} (h : n < 0x80) : utf8 n = [Char.ofNat n] := by
  rw [utf8, if_pos h]

theorem toNat_ofNat_of_lt {n : ℕ} (h : n < 0xd800) : (Char.ofNat n).toNat = n := by
  have hvalid : n.isValidChar := Or.inl h
  have hchar : Char.ofNat n = Char.ofNatAux n hvalid := dif_pos hvalid
  rw [hchar]
  rfl

theorem toNat_lt (c : Char) : c.toNat < 0x110000 := by
  have h := c.valid
  simp only [UInt32.isValidChar, Nat.isValidChar] at h
  change c.val.toNat < _
  omega

theorem utf8_high {n : ℕ} (h : 0x80 ≤ n) (hmax : n < 0x110000) :
    ∀ c ∈ utf8 n, 0x80 ≤ c.toNat := by
  intro c hc
  have hbyte {k : ℕ} (hk : 0x80 ≤ k) (hk' : k < 0x100) : 0x80 ≤ (Char.ofNat k).toNat := by
    rw [toNat_ofNat_of_lt (by omega)]
    exact hk
  simp only [utf8] at hc
  split_ifs at hc
  · omega
  · simp only [List.mem_cons, List.not_mem_nil, or_false] at hc
    rcases hc with rfl | rfl
    · exact hbyte (by omega) (by omega)
    · exact hbyte (by omega) (by omega)
  · simp only [List.mem_cons, List.not_mem_nil, or_false] at hc
    rcases hc with rfl | rfl | rfl
    · exact hbyte (by omega) (by omega)
    · exact hbyte (by omega) (by omega)
    · exact hbyte (by omega) (by omega)
  · simp only [List.mem_cons, List.not_mem_nil, or_false] at hc
    rcases hc with rfl | rfl | rfl | rfl
    · exact hbyte (by omega) (by omega)
    · exact hbyte (by omega) (by omega)
    · exact hbyte (by omega) (by omega)
    · exact hbyte (by omega) (by omega)

namespace Utf8

theorem nil : Utf8 [] := ⟨[], rfl⟩

theorem append {a b : List Char} (ha : Utf8 a) (hb : Utf8 b) : Utf8 (a ++ b) := by
  obtain ⟨s, rfl⟩ := ha
  obtain ⟨t, rfl⟩ := hb
  exact ⟨s ++ t, List.flatMap_append.symm⟩

theorem char (c : Char) : Utf8 (utf8 c.toNat) := ⟨[c], (List.append_nil _).symm⟩

theorem singleton {c : Char} (h : c.toNat < 0x80) : Utf8 [c] := by
  have hc := char c
  rwa [utf8_ascii h, Char.ofNat_toNat] at hc

theorem of_ascii {cs : List Char} (h : ∀ c ∈ cs, c.toNat < 0x80) : Utf8 cs := by
  induction cs with
  | nil => exact nil
  | cons c cs ih =>
    have hcs := ih fun x hx => h x (List.mem_cons_of_mem _ hx)
    exact append (singleton (h c List.mem_cons_self)) hcs

/-- A byte below `0x80` is a character of its own. -/
theorem split {a b : List Char} {c : Char} (hc : c.toNat < 0x80) (h : Utf8 (a ++ c :: b)) :
    Utf8 a ∧ Utf8 b := by
  obtain ⟨s, hs⟩ := h
  induction s generalizing a with
  | nil => simp at hs
  | cons x s ih =>
    rw [List.flatMap_cons] at hs
    rcases List.append_eq_append_iff.1 hs with ⟨mid, hx, hrest⟩ | ⟨mid, ha, hrest⟩
    · cases mid with
      | nil =>
        rw [List.append_nil] at hx
        have htail : [] ++ c :: b = s.flatMap fun c => utf8 c.toNat := by simpa using hrest
        obtain ⟨-, hb⟩ := ih htail
        exact ⟨hx ▸ char x, hb⟩
      | cons y mid =>
        obtain ⟨rfl, rfl⟩ := List.cons.inj hrest
        have hmem : c ∈ utf8 x.toNat := by
          rw [hx]
          exact List.mem_append_right _ List.mem_cons_self
        have hascii : x.toNat < 0x80 := by
          by_contra hge
          have hhigh := utf8_high (by omega) (toNat_lt x) c hmem
          omega
        rw [utf8_ascii hascii] at hx
        cases a with
        | nil =>
          obtain ⟨-, rfl⟩ := List.cons.inj hx
          exact ⟨nil, s, rfl⟩
        | cons y a => simp at hx
    · obtain ⟨ha', hb⟩ := ih hrest.symm
      rw [ha]
      exact ⟨(char x).append ha', hb⟩

theorem split_iff {a b : List Char} {c : Char} (hc : c.toNat < 0x80) :
    Utf8 (a ++ c :: b) ↔ Utf8 a ∧ Utf8 b := by
  constructor
  · exact split hc
  · rintro ⟨ha, hb⟩
    exact ha.append ((singleton hc).append hb)

theorem cons_iff {c : Char} {cs : List Char} (hc : c.toNat < 0x80) :
    Utf8 (c :: cs) ↔ Utf8 cs := by
  have h := split_iff (a := []) (b := cs) hc
  simpa [nil] using h

end Utf8

end Nssf.Base
