import CameraChannel.Bytes
import CameraChannel.Decimal.Digits

/-!
Digits in a base, from the first to the last: those of the quotient and then that of the remainder.
Decimal numbers, padded or signed, are read back as they were written.
-/
namespace CameraChannel.Digits

theorem encode_digitChar {d : Nat} (h : d < 16) :
    String.utf8EncodeChar (digitChar d) = [ascii (digitChar d)] := by
  have : ∀ d : Fin 16, String.utf8EncodeChar (digitChar d.val) = [ascii (digitChar d.val)] := by
    decide
  exact this ⟨d, h⟩

theorem value?_digitChar {d : Nat} (h : d < 10) : value? (digitChar d) = some d := by
  have : ∀ d : Fin 10, value? (digitChar d.val) = some d.val := by decide
  exact this ⟨d, h⟩

theorem inBaseOnto_tail (base fuel n : Nat) (tail : List Char) :
    inBaseOnto base fuel n tail = inBaseOnto base fuel n [] ++ tail := by
  induction fuel generalizing n tail with
  | zero => rfl
  | succ fuel ih =>
    simp only [inBaseOnto]
    split
    · rfl
    · rw [ih, ih _ [_], List.append_assoc]
      rfl

/-- Fuel beyond the number itself changes nothing. -/
theorem inBaseOnto_fuel {base : Nat} (hb : 2 ≤ base) {fuel n : Nat} (h : n ≤ fuel)
    (tail : List Char) : inBaseOnto base fuel n tail = inBaseOnto base n n tail := by
  induction n using Nat.strongRecOn generalizing fuel tail with
  | _ n ih =>
    cases fuel with
    | zero => rw [Nat.le_zero.1 h]
    | succ fuel =>
      cases n with
      | zero =>
        have h0 : 0 < base := by omega
        simp only [inBaseOnto, if_pos h0, Nat.zero_mod]
      | succ m =>
        simp only [inBaseOnto]
        split
        · rfl
        · have hd : (m + 1) / base < m + 1 := Nat.div_lt_self (by omega) (by omega)
          exact (ih _ hd (show _ ≤ fuel by omega) _).trans (ih _ hd (show _ ≤ m by omega) _).symm

theorem decimal_small {n : Nat} (h : n < 10) : decimal n = [digitChar n] := by
  cases n with
  | zero => rfl
  | succ m => exact if_pos h

theorem decimal_large {n : Nat} (h : 10 ≤ n) :
    decimal n = decimal (n / 10) ++ [digitChar (n % 10)] := by
  obtain ⟨m, rfl⟩ : ∃ m, n = m + 1 := ⟨n - 1, by omega⟩
  rw [decimal, inBaseOnto, if_neg (by omega), inBaseOnto_tail,
    inBaseOnto_fuel (by decide) (by omega)]
  rfl

theorem readFrom_append (n : Nat) (a b : List Char) :
    readFrom n (a ++ b) = (readFrom n a).bind (readFrom · b) := by
  induction a generalizing n with
  | nil => rfl
  | cons c a ih =>
    rw [List.cons_append, readFrom, readFrom]
    cases value? c with
    | none => rfl
    | some d => exact ih _

theorem readFrom_decimal (n : Nat) : readFrom 0 (decimal n) = some n := by
  induction n using Nat.strongRecOn with
  | _ n ih =>
    by_cases h : n < 10
    · simp [decimal_small h, readFrom, value?_digitChar h]
    · rw [decimal_large (by omega), readFrom_append, ih _ (by omega), Option.bind_some, readFrom,
        value?_digitChar (by omega)]
      exact congrArg some (by omega)

theorem decimal_ne_nil (n : Nat) : decimal n ≠ [] := by
  by_cases h : n < 10
  · simp [decimal_small h]
  · simp [decimal_large (show 10 ≤ n by omega)]

theorem read?_decimal (n : Nat) : read? (decimal n) = some n := by
  have hr := readFrom_decimal n
  cases hd : decimal n with
  | nil => exact absurd hd (decimal_ne_nil n)
  | cons c cs => rwa [hd] at hr

theorem readFrom_zeros (k : Nat) (cs : List Char) :
    readFrom 0 (List.replicate k '0' ++ cs) = readFrom 0 cs := by
  induction k with
  | zero => rfl
  | succ k ih => exact ih

/-- Zeros in front do not change what is read. -/
theorem readFrom_padded (width n : Nat) : readFrom 0 (padded width n) = some n := by
  rw [padded, readFrom_zeros, readFrom_decimal]

theorem read?_padded (width n : Nat) : read? (padded width n) = some n := by
  have hr := readFrom_padded width n
  cases hp : padded width n with
  | nil => exact absurd (List.append_eq_nil_iff.1 hp).2 (decimal_ne_nil n)
  | cons c cs => rwa [hp] at hr

/-- The last of several digits is that of the remainder. -/
theorem padded_succ {width : Nat} (h : 0 < width) (n : Nat) :
    padded (width + 1) n = padded width (n / 10) ++ [digitChar (n % 10)] := by
  by_cases hn : n < 10
  · obtain ⟨k, rfl⟩ : ∃ k, width = k + 1 := ⟨width - 1, by omega⟩
    have h0 : decimal 0 = ['0'] := rfl
    rw [padded, padded, decimal_small hn, Nat.div_eq_of_lt hn, Nat.mod_eq_of_lt hn, h0]
    simp [List.replicate_succ']
  · rw [padded, padded, decimal_large (by omega)]
    simp

/-- What is read as a number consists of digits. -/
theorem isSome_value?_of_readFrom {k n : Nat} {cs : List Char} (h : readFrom k cs = some n) :
    ∀ c ∈ cs, (value? c).isSome := by
  induction cs generalizing k with
  | nil => nofun
  | cons d cs ih =>
    rw [readFrom] at h
    split at h
    · next hv =>
      intro c hc
      obtain rfl | hc := List.mem_cons.1 hc
      · exact Option.isSome_of_eq_some hv
      · exact ih h c hc
    · cases h

theorem isSome_value?_of_mem_padded (width n : Nat) : ∀ c ∈ padded width n, (value? c).isSome :=
  isSome_value?_of_readFrom (readFrom_padded width n)

end CameraChannel.Digits
