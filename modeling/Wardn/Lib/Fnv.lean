import Mathlib.Data.List.Basic

/-!
# 32-bit FNV-1a hashes and their hexadecimal text

Go's `hash/fnv` on the UTF-8 bytes of a text, and the text of a number under the verb `%x`.
The text determines the number (`hexText_injective`) and is a plain word
(`hexText_isAlphanum`).
-/

namespace Fnv

/-- The bytes of `[]byte(s)`. -/
def bytes (s : String) : List UInt8 := s.toList.flatMap String.utf8EncodeChar

/-- `fnv.New32a`, after the bytes have been written. -/
def sum32a (bytes : List UInt8) : UInt32 :=
  bytes.foldl (fun hash b => (hash ^^^ b.toUInt32) * 16777619) 2166136261

/-- The verb `%x`: lower-case digits, no leading zero. -/
def hexText (n : Nat) : String := String.ofList (Nat.toDigits 16 n)

example : hexText (sum32a (bytes "foobar")).toNat = "bf9cf968" := by decide

/-- Hexadecimal digits are different characters. -/
theorem digitChar_injective {m n : Nat} (hm : m < 16) (hn : n < 16)
    (same : Nat.digitChar m = Nat.digitChar n) : m = n := by
  have table : ∀ i < 16, ∀ j < 16, Nat.digitChar i = Nat.digitChar j → i = j := by decide
  exact table m hm n hn same

/-- A number is known by its hexadecimal digits. -/
theorem toDigits_injective {m n : Nat} (same : Nat.toDigits 16 m = Nat.toDigits 16 n) : m = n := by
  induction m using Nat.strongRecOn generalizing n with
  | ind m ih =>
      have cut : ∀ k, Nat.toDigits 16 k =
          if k < 16 then [Nat.digitChar k]
          else Nat.toDigits 16 (k / 16) ++ [Nat.digitChar (k % 16)] :=
        fun k => Nat.toDigits_eq_if (by omega)
      rw [cut m, cut n] at same
      have digits : ∀ k, Nat.toDigits 16 k ≠ [] := fun k => Nat.toDigits_ne_nil
      split at same
      · split at same
        · exact digitChar_injective ‹_› ‹_› (List.cons.inj same).1
        · have lengths := congrArg List.length same
          have more := List.length_pos_of_ne_nil (digits (n / 16))
          simp only [List.length_append, List.length_singleton] at lengths
          omega
      · split at same
        · have lengths := congrArg List.length same
          have more := List.length_pos_of_ne_nil (digits (m / 16))
          simp only [List.length_append, List.length_singleton] at lengths
          omega
        · obtain ⟨high, low⟩ := List.append_inj' same rfl
          have quotient := ih (m / 16) (by omega) high
          have remainder := digitChar_injective (Nat.mod_lt m (by omega)) (Nat.mod_lt n (by omega))
            (List.cons.inj low).1
          omega

theorem hexText_injective {m n : Nat} (same : hexText m = hexText n) : m = n :=
  toDigits_injective (String.ofList_injective same)

theorem isAlphanum_digitChar {n : Nat} (hn : n < 16) : (Nat.digitChar n).isAlphanum = true := by
  have table : ∀ i < 16, (Nat.digitChar i).isAlphanum = true := by decide
  exact table n hn

/-- The digits are letters and figures, so a text of them is a plain file name. -/
theorem isAlphanum_toDigits (n : Nat) : ∀ c ∈ Nat.toDigits 16 n, c.isAlphanum = true := by
  induction n using Nat.strongRecOn with
  | ind n ih =>
      rw [Nat.toDigits_eq_if (by omega)]
      split
      · simpa using isAlphanum_digitChar ‹_›
      · intro c member
        rcases List.mem_append.mp member with high | low
        · exact ih (n / 16) (by omega) c high
        · rw [List.mem_singleton.mp low]
          exact isAlphanum_digitChar (Nat.mod_lt n (by omega))

/-- There is no slash and no dot in a hexadecimal text. -/
theorem isAlphanum_hexText (n : Nat) : ∀ c ∈ (hexText n).toList, c.isAlphanum = true := by
  rw [hexText, String.toList_ofList]
  exact isAlphanum_toDigits n

/-- Zero has a digit too. -/
theorem hexText_ne_nil (n : Nat) : (hexText n).toList ≠ [] := by
  rw [hexText, String.toList_ofList]
  exact Nat.toDigits_ne_nil

end Fnv
