import CameraChannel.Frame.Basic

/-!
All complete frames of a byte string, and how many bytes are left behind the last of them.
-/
namespace CameraChannel

structure Batch where
  entries : List Entry
  trailing : Nat

namespace Batch

def decode (d : Bytes) : Batch :=
  match _h : Frame.split d with
  | .error _ => ⟨[], d.length⟩
  | .ok (r, rest) =>
    let later := decode rest
    ⟨r.entry :: later.entries, later.trailing⟩
termination_by d.length
decreasing_by exact Frame.split_shorter _h

end Batch

end CameraChannel
