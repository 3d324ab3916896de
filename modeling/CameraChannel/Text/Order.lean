import CameraChannel.Text.Utf8

/-!
The order of names: their UTF-8 bytes compared from the left. Main statements: two names are the
same when their bytes are, and of two different names one stands before the other.
-/
namespace CameraChannel.Utf8

theorem ofString_inj {a b : String} (h : ofString a = ofString b) : a = b := by
  apply String.toByteArray_inj.mp
  rw [← String.utf8Encode_toList, ← String.utf8Encode_toList]
  exact congrArg List.toByteArray h

def Before (a b : String) : Prop := ofString a < ofString b

instance (a b : String) : Decidable (Before a b) := inferInstanceAs (Decidable (_ < _))

theorem Before.trans {a b c : String} (h : Before a b) (k : Before b c) : Before a c :=
  List.lt_trans h k

theorem before_of_ne {a b : String} (hne : a ≠ b) (h : ¬Before a b) : Before b a :=
  Std.lt_of_le_of_ne h fun e => hne (ofString_inj e.symm)

/-- The last of some names. -/
def greatest : List String → Option String
  | [] => none
  | n :: ns =>
    match greatest ns with
    | none => some n
    | some m => if Before n m then some m else some n

end CameraChannel.Utf8
