import CameraChannel.Stream.Script

/-!
What a script of reads delivers, however it is cut: single bytes, and between them the ends and the
failures that a reader meets.
-/
namespace CameraChannel

/-- What a read can tell besides data. -/
inductive Signal where
  | ended
  | failed (reason : String)
  | silent
  deriving DecidableEq

inductive Piece where
  | byte (b : UInt8)
  | signal (s : Signal)

namespace Piece

def byte? : Piece → Option UInt8
  | .byte b => some b
  | .signal _ => none

def signal? : Piece → Option Signal
  | .byte _ => none
  | .signal s => some s

def bytes (ps : List Piece) : Bytes := ps.filterMap byte?

def signals (ps : List Piece) : List Signal := ps.filterMap signal?

@[simp] theorem bytes_append (ps qs : List Piece) : bytes (ps ++ qs) = bytes ps ++ bytes qs :=
  List.filterMap_append

@[simp] theorem signals_append (ps qs : List Piece) :
    signals (ps ++ qs) = signals ps ++ signals qs :=
  List.filterMap_append

@[simp] theorem bytes_data (bs : Bytes) : bytes (bs.map .byte) = bs := by
  induction bs with
  | nil => rfl
  | cons b bs ih => exact congrArg (b :: ·) ih

@[simp] theorem signals_data (bs : Bytes) : signals (bs.map .byte) = [] := by
  induction bs with
  | nil => rfl
  | cons b bs ih => exact ih

end Piece

namespace ReadEvent

/-- The pieces of a script, up to where it stays silent for good. A read of no bytes is an end. -/
def pieces : List ReadEvent → List Piece
  | [] => []
  | .data [] :: es => .signal .ended :: pieces es
  | .data (b :: bs) :: es => (b :: bs).map .byte ++ pieces es
  | .finish :: es => .signal .ended :: pieces es
  | .failure f :: es => .signal (.failed f.reason) :: pieces es
  | .delay _ :: es => pieces es
  | .never :: _ => [.signal .silent]

/-- All the data of a script. -/
def arrivals (es : List ReadEvent) : Bytes := Piece.bytes (pieces es)

/-- The reads of a script that give no data. -/
def signals (es : List ReadEvent) : List Signal := Piece.signals (pieces es)

@[simp] theorem arrivals_nil : arrivals [] = [] := rfl

@[simp] theorem arrivals_never (es : List ReadEvent) : arrivals (.never :: es) = [] := rfl

theorem pieces_leftover (bs : Bytes) (es : List ReadEvent) :
    pieces (leftover bs es) = bs.map .byte ++ pieces es := by
  cases bs <;> rfl

theorem pieces_data {chunks : List Bytes} (h : ∀ bs ∈ chunks, bs ≠ []) :
    pieces (chunks.map .data) = chunks.flatten.map .byte := by
  induction chunks with
  | nil => rfl
  | cons bs chunks ih =>
    have hrest := ih fun x hx => h x (List.mem_cons_of_mem _ hx)
    cases bs with
    | nil => exact absurd rfl (h [] List.mem_cons_self)
    | cons b bs => rw [List.map_cons, pieces, hrest, List.flatten_cons, List.map_append]

end ReadEvent

open ReadEvent (pieces)

/-- One read, by what it uses up of a script. -/
theorem readSome_pieces (es : List ReadEvent) :
    match readSome none es with
    | (.done (b :: bs) _, rest) => pieces es = (b :: bs).map .byte ++ pieces rest
    | (.done [] _, rest) => pieces es = .signal .ended :: pieces rest ∨ pieces es = [] ∧ rest = []
    | (.failed f, rest) => pieces es = .signal (.failed f.reason) :: pieces rest
    | (.unfinished, rest) => pieces es = pieces rest ∧ ∃ later, rest = .never :: later := by
  induction es with
  | nil => exact .inr ⟨rfl, rfl⟩
  | cons e es ih =>
    cases e with
    | data ds =>
      cases ds with
      | nil => exact .inl rfl
      | cons d ds =>
        have hcut : (d :: ds).take readChunk ++ (d :: ds).drop readChunk = d :: ds :=
          List.take_append_drop _ _
        change pieces (.data (d :: ds) :: es) =
          ((d :: ds).take readChunk).map .byte ++ pieces (leftover ((d :: ds).drop readChunk) es)
        rw [ReadEvent.pieces_leftover, ← List.append_assoc, ← List.map_append, hcut, pieces]
    | finish => exact .inl rfl
    | failure f => exact rfl
    | delay ms => exact ih
    | never => exact ⟨rfl, es, rfl⟩

variable {es rest : List ReadEvent} {a : Allowance} {bs : Bytes}

theorem readSome_data (h : readSome none es = (.done bs a, rest)) (hne : bs ≠ []) :
    pieces es = bs.map .byte ++ pieces rest := by
  have hr := readSome_pieces es
  rw [h] at hr
  cases bs with
  | nil => exact absurd rfl hne
  | cons b bs => exact hr

theorem readSome_end (h : readSome none es = (.done [] a, rest)) :
    pieces es = .signal .ended :: pieces rest ∨ pieces es = [] ∧ rest = [] := by
  have hr := readSome_pieces es
  rw [h] at hr
  exact hr

theorem readSome_failed {f : Failure} (h : readSome none es = (.failed f, rest)) :
    pieces es = .signal (.failed f.reason) :: pieces rest := by
  have hr := readSome_pieces es
  rw [h] at hr
  exact hr

theorem readSome_unfinished (h : readSome none es = (.unfinished, rest)) :
    pieces es = pieces rest ∧ ∃ later, rest = .never :: later := by
  have hr := readSome_pieces es
  rw [h] at hr
  exact hr

end CameraChannel
