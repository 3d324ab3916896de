import CameraChannel.Proofs.Frame.Rendering
import CameraChannel.Proofs.Json.Spacing

/-!
Text on one line. The compact text of a value has no control characters, whatever its strings and
names hold, and neither has the line that shows a frame.
-/
namespace CameraChannel

/-- Text without control characters, so without the end of a line. -/
def Unbroken (cs : List Char) : Prop := ∀ c ∈ cs, 0x20 ≤ c.toNat

namespace Unbroken

instance (cs : List Char) : Decidable (Unbroken cs) :=
  List.decidableBAll (fun c : Char => 0x20 ≤ c.toNat) cs

variable {as bs : List Char}

theorem nil : Unbroken [] := nofun

theorem append (ha : Unbroken as) (hb : Unbroken bs) : Unbroken (as ++ bs) := fun c hc =>
  (List.mem_append.1 hc).elim (ha c) (hb c)

theorem cons {c : Char} (hc : Unbroken [c]) (hb : Unbroken bs) : Unbroken (c :: bs) := hc.append hb

theorem no_newline (h : Unbroken as) : '\n' ∉ as := fun hm => absurd (h _ hm) (by decide)

theorem digit {d : Nat} (h : d < 16) : Unbroken [Digits.digitChar d] := by
  have : ∀ d : Fin 16, Unbroken [Digits.digitChar d.val] := by decide
  exact this ⟨d, h⟩

end Unbroken

theorem Hex.unbroken_encode (bs : Bytes) : Unbroken (encode bs) := by
  intro c hc
  obtain ⟨d, hd, rfl⟩ := mem_encode hc
  exact Unbroken.digit hd _ (List.mem_singleton_self _)

namespace Json

theorem Numeral.unbroken {cs : List Char} (h : Numeral cs) : Unbroken cs := by
  have : Unbroken numerals := by decide
  exact fun c hc => this c (h c hc)

theorem unbroken_escape (c : Char) : Unbroken (escape c) := by
  unfold escape
  split
  · decide
  split
  · decide
  split
  · decide
  split
  · decide
  split
  · decide
  split
  · decide
  split
  · decide
  split
  · have front : Unbroken ['\\', 'u', '0', '0'] := by decide
    exact front.append ((Unbroken.digit (by omega)).append (.digit (by omega)))
  · next h =>
    intro x hx
    rw [List.mem_singleton.1 hx]
    omega

theorem unbroken_quote (s : String) : Unbroken (quote s) := by
  have hs : Unbroken (s.toList.flatMap escape) := fun c hc => by
    obtain ⟨x, -, hc⟩ := List.mem_flatMap.1 hc
    exact unbroken_escape x c hc
  exact .cons (by decide) (hs.append (by decide))

theorem unbroken_lead (d : Nat) (first : Bool) :
    Unbroken (if first then Layout.compact.opening d else ',' :: Layout.compact.afterComma d) := by
  cases first with
  | true => exact .nil
  | false => exact .cons (by decide) .nil

theorem unbroken_ending (d : Nat) (empty : Bool) : Unbroken (Layout.compact.ending d empty) := by
  cases empty <;> exact .nil

mutual

theorem unbroken_render (d : Nat) : ∀ v : Json, Unbroken (render .compact d v)
  | .null => (by decide : Unbroken ['n', 'u', 'l', 'l'])
  | .bool true => (by decide : Unbroken ['t', 'r', 'u', 'e'])
  | .bool false => (by decide : Unbroken ['f', 'a', 'l', 's', 'e'])
  | .integer n => (Numeral.signed n.val).unbroken
  | .float x => (Numeral.float x).unbroken
  | .string s => unbroken_quote s
  | .array vs => by
    rw [render_array]
    exact .cons (by decide) ((unbroken_items (d + 1) true vs).append
      ((unbroken_ending d vs.isEmpty).append (by decide)))
  | .object ms => by
    rw [render_object]
    exact .cons (by decide) ((unbroken_members (d + 1) true ms).append
      ((unbroken_ending d ms.isEmpty).append (by decide)))

theorem unbroken_items (d : Nat) (first : Bool) : ∀ vs : List Json,
    Unbroken (itemsText .compact d first vs)
  | [] => .nil
  | v :: vs =>
    (unbroken_lead d first).append ((unbroken_render d v).append (unbroken_items d false vs))

theorem unbroken_members (d : Nat) (first : Bool) : ∀ ms : List (String × Json),
    Unbroken (membersText .compact d first ms)
  | [] => .nil
  | (name, v) :: ms =>
    (unbroken_lead d first).append ((unbroken_quote name).append
      ((Unbroken.cons (by decide) (unbroken_render d v)).append (unbroken_members d false ms)))

end

theorem unbroken_text (v : Json) : Unbroken (v.text .compact).toList := by
  rw [text, String.toList_ofList]
  exact unbroken_render 0 v

end Json

/-- A frame whose command can be sent is shown on one line. -/
theorem Frame.unbroken_line {f : Frame} (h : f.message.Unreserved) : Unbroken f.line.toList := by
  have word {as bs : List Char} (ha : Unbroken as) (hb : Unbroken bs) :
      Unbroken (as ++ ' ' :: bs) := ha.append (.cons (by decide) hb)
  have number (label : String) (hl : Unbroken label.toList) (n : Nat) :
      Unbroken (label.toList ++ Digits.decimal n) := hl.append (Json.Numeral.decimal n).unbroken
  have forward : Unbroken ("forward=".toList ++ Hex.encode f.header.forwardId.toList) :=
    .append (by decide) (Hex.unbroken_encode _)
  have message : Unbroken f.message.text.toList := by
    rw [Command.text, h.document]
    exact Json.unbroken_text _
  rw [f.toList_line]
  exact word (number "len=" (by decide) _) (word (number "flag=" (by decide) _)
    (word (number "package=" (by decide) _) (word (number "deal=" (by decide) _)
      (word forward message))))

end CameraChannel
