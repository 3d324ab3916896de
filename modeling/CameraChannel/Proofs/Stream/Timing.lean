import Mathlib.Algebra.Order.BigOperators.Group.List
import Mathlib.Algebra.Order.Ring.Nat
import CameraChannel.Proofs.Stream.Arrivals

/-!
Deliveries in time: data in any chunks with delays between them. Reading exactly so many bytes gives
the first of them, or the end, if the delays in front of these bytes fit into the time allowed.
-/
namespace CameraChannel

namespace ReadEvent

/-- Data, or a delay before more of it. -/
def isDelivery : ReadEvent → Bool
  | .data bs => !bs.isEmpty
  | .delay _ => true
  | _ => false

/-- The delay right before each byte of a delivery, and last the one before its end. -/
def waits : List ReadEvent → List Nat
  | .data bs :: es => List.replicate bs.length 0 ++ waits es
  | .delay ms :: es => (waits es).modifyHead (· + ms)
  | _ => [0]

/-- The stream ends: it is over, or a read tells so. -/
def Ends (tail : List ReadEvent) : Prop := tail = [] ∨ ∃ later, tail = .finish :: later

variable {es tail : List ReadEvent}

theorem arrivals_data (bs : Bytes) (es : List ReadEvent) :
    arrivals (.data bs :: es) = bs ++ arrivals es := by
  cases bs with
  | nil => rfl
  | cons b bs => rw [arrivals, pieces, Piece.bytes_append, Piece.bytes_data, arrivals]

theorem arrivals_leftover (bs : Bytes) (es : List ReadEvent) :
    arrivals (leftover bs es) = bs ++ arrivals es := by
  rw [arrivals, pieces_leftover, Piece.bytes_append, Piece.bytes_data, arrivals]

theorem waits_leftover (bs : Bytes) (es : List ReadEvent) :
    waits (leftover bs es) = List.replicate bs.length 0 ++ waits es := by
  cases bs <;> rfl

theorem leftover_append (bs : Bytes) (es tail : List ReadEvent) :
    leftover bs (es ++ tail) = leftover bs es ++ tail := by
  cases bs <;> rfl

theorem waits_cons (es : List ReadEvent) : ∃ w ws, waits es = w :: ws := by
  induction es with
  | nil => exact ⟨0, [], rfl⟩
  | cons e es ih =>
    obtain ⟨w, ws, hw⟩ := ih
    cases e with
    | data bs =>
      rw [waits, hw]
      cases bs with
      | nil => exact ⟨w, ws, rfl⟩
      | cons b bs => exact ⟨0, _, rfl⟩
    | delay ms => exact ⟨w + ms, ws, by rw [waits, hw]; rfl⟩
    | finish => exact ⟨0, [], rfl⟩
    | failure f => exact ⟨0, [], rfl⟩
    | never => exact ⟨0, [], rfl⟩

theorem sum_take_data (bs : Bytes) (es : List ReadEvent) (n : Nat) :
    ((waits (.data bs :: es)).take n).sum = ((waits es).take (n - bs.length)).sum := by
  rw [waits, List.take_append, List.sum_append_nat, List.take_replicate, List.sum_replicate_nat,
    List.length_replicate, Nat.mul_zero, Nat.zero_add]

theorem sum_take_delay {n : Nat} (hn : n ≠ 0) (ms : Nat) (es : List ReadEvent) :
    ((waits (.delay ms :: es)).take n).sum = ms + ((waits es).take n).sum := by
  obtain ⟨w, ws, hw⟩ := waits_cons es
  obtain ⟨m, rfl⟩ := Nat.exists_eq_succ_of_ne_zero hn
  rw [waits, hw, List.modifyHead_cons, List.take_succ_cons, List.take_succ_cons, List.sum_cons,
    List.sum_cons]
  omega

theorem drop_waits_delay {n : Nat} (hn : n ≠ 0) (ms : Nat) (es : List ReadEvent) :
    (waits (.delay ms :: es)).drop n = (waits es).drop n := by
  obtain ⟨w, ws, hw⟩ := waits_cons es
  obtain ⟨m, rfl⟩ := Nat.exists_eq_succ_of_ne_zero hn
  rw [waits, hw]
  rfl

end ReadEvent

open ReadEvent (arrivals waits)

variable {es tail : List ReadEvent} {n left : Nat}

theorem readExactly_zero (a : Allowance) (es : List ReadEvent) :
    readExactly 0 a es = (.done [] a, es) := by
  cases es <;> rfl

theorem readExactly_data {bs : Bytes} (hn : n ≠ 0) (hb : bs ≠ []) (a : Allowance)
    (es : List ReadEvent) :
    readExactly n a (.data bs :: es) =
      if n ≤ bs.length then (.done (bs.take n) a, leftover (bs.drop n) es)
      else
        match readExactly (n - bs.length) a es with
        | (.done more a, es) => (.done (bs ++ more) a, es)
        | r => r := by
  rw [readExactly, if_neg hn]
  exact if_neg (by simpa using hb)

theorem readExactly_delay {ms : Nat} (hn : n ≠ 0) (hms : ms ≤ left) (es : List ReadEvent) :
    readExactly n (some left) (.delay ms :: es) = readExactly n (some (left - ms)) es := by
  rw [readExactly, if_neg hn]
  simp only [Allowance.spend, if_pos hms]

/-- If the bytes are there in time, reading takes them and leaves the delivery of the others. -/
theorem readExactly_enough (tail : List ReadEvent) (h : ∀ e ∈ es, e.isDelivery = true)
    (hn : n ≤ (arrivals es).length) (ht : ((waits es).take n).sum ≤ left) :
    ∃ es', readExactly n (some left) (es ++ tail) =
        (.done ((arrivals es).take n) (some (left - ((waits es).take n).sum)), es' ++ tail) ∧
      (∀ e ∈ es', e.isDelivery = true) ∧ arrivals es' = (arrivals es).drop n ∧
      waits es' = (waits es).drop n := by
  induction es generalizing n left with
  | nil =>
    obtain rfl : n = 0 := Nat.le_zero.1 hn
    exact ⟨[], readExactly_zero _ _, h, rfl, rfl⟩
  | cons e es ih =>
    by_cases hzero : n = 0
    · subst hzero
      exact ⟨e :: es, readExactly_zero _ _, h, rfl, rfl⟩
    have hrest : ∀ x ∈ es, x.isDelivery = true := fun x hx => h x (List.mem_cons_of_mem _ hx)
    cases e with
    | data bs =>
      have hb : bs ≠ [] := by simpa [ReadEvent.isDelivery] using h _ List.mem_cons_self
      rw [ReadEvent.arrivals_data] at hn ⊢
      rw [ReadEvent.sum_take_data] at ht ⊢
      rw [List.cons_append, readExactly_data hzero hb]
      by_cases hle : n ≤ bs.length
      · -- the chunk holds all that is asked for, and what it holds besides stays
        refine ⟨leftover (bs.drop n) es, ?_, ?_, ?_, ?_⟩
        · rw [if_pos hle, ReadEvent.leftover_append, List.take_append_of_le_length hle,
            Nat.sub_eq_zero_of_le hle, List.take_zero]
          rfl
        · intro x hx
          rw [leftover] at hx
          split at hx
          · exact hrest x hx
          · next hne =>
            obtain rfl | hx := List.mem_cons.1 hx
            · simpa [ReadEvent.isDelivery] using hne
            · exact hrest x hx
        · rw [ReadEvent.arrivals_leftover, List.drop_append_of_le_length hle]
        · rw [ReadEvent.waits_leftover, waits, List.length_drop,
            List.drop_append_of_le_length (by rw [List.length_replicate]; exact hle),
            List.drop_replicate]
      · rw [List.length_append] at hn
        have hlen : bs.length ≤ n := by omega
        have hwaits : (List.replicate bs.length 0).length ≤ n := by
          rw [List.length_replicate]
          exact hlen
        obtain ⟨es', hread, hd, harrive, hwait⟩ := ih hrest (by omega) ht
        refine ⟨es', ?_, hd, ?_, ?_⟩
        · rw [if_neg hle, hread, List.take_append, List.take_of_length_le hlen]
        · rw [harrive, List.drop_append, List.drop_of_length_le hlen, List.nil_append]
        · rw [hwait, waits, List.drop_append, List.length_replicate, List.drop_of_length_le hwaits,
            List.nil_append]
    | delay ms =>
      rw [ReadEvent.sum_take_delay hzero] at ht ⊢
      have hleft : ((waits es).take n).sum ≤ left - ms := by omega
      obtain ⟨es', hread, hd, harrive, hwait⟩ := ih hrest hn hleft
      refine ⟨es', ?_, hd, harrive, hwait.trans (ReadEvent.drop_waits_delay hzero ms es).symm⟩
      rw [List.cons_append, readExactly_delay hzero (by omega), hread, Nat.sub_sub]
      rfl
    | finish => cases h _ List.mem_cons_self
    | failure f => cases h _ List.mem_cons_self
    | never => cases h _ List.mem_cons_self

/-- If the end is there in time and the bytes are not, reading tells the end. -/
theorem readExactly_short (h : ∀ e ∈ es, e.isDelivery = true) (ends : ReadEvent.Ends tail)
    (hn : (arrivals es).length < n) (ht : ((waits es).take n).sum ≤ left) :
    ∃ rest, readExactly n (some left) (es ++ tail) = (.failed .ended, rest) := by
  have hzero : n ≠ 0 := Nat.ne_zero_of_lt hn
  induction es generalizing n left with
  | nil =>
    obtain rfl | ⟨later, rfl⟩ := ends
    · exact ⟨[], by rw [List.append_nil, readExactly, if_neg hzero]⟩
    · exact ⟨later, by rw [List.nil_append, readExactly, if_neg hzero]⟩
  | cons e es ih =>
    have hrest : ∀ x ∈ es, x.isDelivery = true := fun x hx => h x (List.mem_cons_of_mem _ hx)
    cases e with
    | data bs =>
      have hb : bs ≠ [] := by simpa [ReadEvent.isDelivery] using h _ List.mem_cons_self
      rw [ReadEvent.arrivals_data, List.length_append] at hn
      rw [ReadEvent.sum_take_data] at ht
      obtain ⟨rest, hread⟩ := ih (n := n - bs.length) hrest (by omega) ht (by omega)
      refine ⟨rest, ?_⟩
      rw [List.cons_append, readExactly_data hzero hb, if_neg (by omega), hread]
    | delay ms =>
      rw [ReadEvent.sum_take_delay hzero] at ht
      have hleft : ((waits es).take n).sum ≤ left - ms := by omega
      obtain ⟨rest, hread⟩ := ih hrest hn hleft hzero
      refine ⟨rest, ?_⟩
      rw [List.cons_append, readExactly_delay hzero (by omega), hread]
    | finish => cases h _ List.mem_cons_self
    | failure f => cases h _ List.mem_cons_self
    | never => cases h _ List.mem_cons_self

end CameraChannel
