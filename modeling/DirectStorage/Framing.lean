/-
DirectStorage/Framing.lean

Streams of self-delimiting frames.

A `Codec` encodes a frame as a nonempty string and recognises a frame at the
head of a stream; its fields say that the two are inverse to each other, so
that a stream starts with at most one frame.  `Codec.split` cuts a stream
into the longest sequence of complete frames and the rest; a frame that
`stop` accepts is the last one.

Most formats have a header of fixed size that says how long the payload after
it is.  A `HeaderFormat` describes such headers, and `HeaderFormat.codec` is
the frame format it gives.

Main results: the rule `Codec.stream_induction`, by which a property of
streams is proved one frame at a time, the equations of `split` for its
cases, and `HeaderFormat.codec`.
-/
import Mathlib.Tactic.Common

namespace DirectStorage

/-- A frame format over the alphabet `α`. -/
structure Codec (α β : Type*) where
  parse : List α → Option (β × List α)
  encode : β → List α
  encode_ne_nil : ∀ r, encode r ≠ []
  parse_encode : ∀ r tail, parse (encode r ++ tail) = some (r, tail)
  eq_of_parse : ∀ {data r tail}, parse data = some (r, tail) → data = encode r ++ tail

namespace Codec

variable {α β : Type*} (c : Codec α β) (stop : β → Bool)

theorem length_lt_of_parse {data tail : List α} {r : β}
    (h : c.parse data = some (r, tail)) : tail.length < data.length := by
  have hpos := List.length_pos_iff.mpr (c.encode_ne_nil r)
  rw [c.eq_of_parse h, List.length_append]
  omega

/-- The complete frames at the head of a stream, up to and including the first
one that `stop` accepts, and the rest of the stream. -/
def split (data : List α) : List β × List α :=
  match _h : c.parse data with
  | none => ([], data)
  | some (r, tail) =>
      if stop r then ([r], tail)
      else (r :: (split tail).1, (split tail).2)
termination_by data.length
decreasing_by all_goals exact c.length_lt_of_parse _h

/-- **Induction over a stream**: a property that holds of every stream without
a complete first frame, and that one frame more preserves, holds of every
stream. -/
theorem stream_induction {P : List α → Prop} (hnone : ∀ data, c.parse data = none → P data)
    (hframe : ∀ r tail, P tail → P (c.encode r ++ tail)) (data : List α) : P data := by
  induction hn : data.length using Nat.strongRecOn generalizing data with
  | ind n ih =>
      rcases e : c.parse data with - | ⟨r, tail⟩
      · exact hnone data e
      · have hlt := c.length_lt_of_parse e
        rw [c.eq_of_parse e]
        exact hframe r tail (ih tail.length (by omega) tail rfl)

/-! ### The equations of `split` -/

theorem split_of_none {data : List α} (h : c.parse data = none) :
    c.split stop data = ([], data) := by
  rw [split]
  split
  · rfl
  · rename_i e
    rw [h] at e
    cases e

theorem split_encode (r : β) (tail : List α) :
    c.split stop (c.encode r ++ tail) =
      if stop r then ([r], tail)
      else (r :: (c.split stop tail).1, (c.split stop tail).2) := by
  rw [split]
  split
  · rename_i e
    rw [c.parse_encode] at e
    cases e
  · rename_i r' tail' e
    rw [c.parse_encode, Option.some.injEq, Prod.mk.injEq] at e
    obtain ⟨rfl, rfl⟩ := e
    rfl

end Codec

/-! ### Headers of fixed size -/

/-- A header of `size` elements, how it is read and written, which headers are
in order, and how many elements follow them. -/
structure HeaderFormat (α H : Type*) where
  size : Nat
  size_pos : 0 < size
  load : List α → H
  bytes : H → List α
  ok : H → Prop
  payloadLen : H → Nat
  decidableOk : DecidablePred ok
  length_bytes : ∀ {h}, ok h → (bytes h).length = size
  load_bytes : ∀ {h}, ok h → ∀ rest, load (bytes h ++ rest) = h
  bytes_load : ∀ {data}, size ≤ data.length → bytes (load data) = data.take size

namespace HeaderFormat

variable {α H : Type*} (F : HeaderFormat α H)

/-- A header in order with its whole payload. -/
@[ext]
structure Frame where
  hdr : H
  payload : List α
  ok : F.ok hdr
  payload_length : payload.length = F.payloadLen hdr

instance : DecidablePred F.ok := F.decidableOk

instance [DecidableEq α] [DecidableEq H] : DecidableEq F.Frame := fun f g =>
  decidable_of_iff (f.hdr = g.hdr ∧ f.payload = g.payload)
    ⟨fun h => Frame.ext h.1 h.2, fun h => h ▸ ⟨rfl, rfl⟩⟩

/-- The whole payload of the header at the head of a stream is there. -/
def Complete (data : List α) : Prop := F.size + F.payloadLen (F.load data) ≤ data.length

instance (data : List α) : Decidable (F.Complete data) := inferInstanceAs (Decidable (_ ≤ _))

variable {F}

theorem Complete.payload_length {data : List α} (h : F.Complete data) :
    ((data.drop F.size).take (F.payloadLen (F.load data))).length =
      F.payloadLen (F.load data) := by
  rw [List.length_take, List.length_drop]
  have hle : F.size + F.payloadLen (F.load data) ≤ data.length := h
  omega

def Frame.encode (f : F.Frame) : List α := F.bytes f.hdr ++ f.payload

variable (F)

def parse (data : List α) : Option (F.Frame × List α) :=
  if h : F.Complete data ∧ F.ok (F.load data) then
    some (⟨F.load data, (data.drop F.size).take (F.payloadLen (F.load data)), h.2,
        h.1.payload_length⟩,
      data.drop (F.size + F.payloadLen (F.load data)))
  else none

variable {F}

theorem load_encode (f : F.Frame) (tail : List α) : F.load (f.encode ++ tail) = f.hdr := by
  rw [Frame.encode, List.append_assoc, F.load_bytes f.ok]

theorem length_encode (f : F.Frame) : f.encode.length = F.size + F.payloadLen f.hdr := by
  rw [Frame.encode, List.length_append, F.length_bytes f.ok, f.payload_length]

theorem drop_encode (f : F.Frame) (tail : List α) :
    (f.encode ++ tail).drop F.size = f.payload ++ tail := by
  rw [Frame.encode, List.append_assoc]
  exact List.drop_left' (F.length_bytes f.ok)

theorem parse_encode (f : F.Frame) (tail : List α) :
    F.parse (f.encode ++ tail) = some (f, tail) := by
  have hload := load_encode f tail
  have hcomplete : F.Complete (f.encode ++ tail) := by
    rw [Complete, hload, List.length_append, length_encode]
    exact Nat.le_add_right _ _
  rw [parse, dif_pos ⟨hcomplete, by rw [hload]; exact f.ok⟩, Option.some.injEq, Prod.mk.injEq]
  refine ⟨Frame.ext hload ?_, ?_⟩
  · show ((f.encode ++ tail).drop F.size).take _ = _
    rw [hload, drop_encode]
    exact List.take_left' f.payload_length
  · rw [hload]
    exact List.drop_left' (length_encode f)

theorem eq_of_parse {data tail : List α} {f : F.Frame} (h : F.parse data = some (f, tail)) :
    data = f.encode ++ tail := by
  rw [parse] at h
  split_ifs at h with hc
  rw [Option.some.injEq, Prod.mk.injEq] at h
  obtain ⟨rfl, rfl⟩ := h
  have hsize : F.size ≤ data.length := Nat.le_trans (Nat.le_add_right _ _) hc.1
  show data = F.bytes (F.load data) ++ (data.drop F.size).take _ ++ _
  rw [F.bytes_load hsize, ← List.take_add, List.take_append_drop]

variable (F)

/-- **A header format is a frame format.** -/
def codec : Codec α F.Frame where
  parse := F.parse
  encode := Frame.encode
  encode_ne_nil f := by
    intro h
    have hpos := F.size_pos
    have hlen := congrArg List.length h
    rw [length_encode, List.length_nil] at hlen
    omega
  parse_encode := parse_encode
  eq_of_parse := eq_of_parse

/-- A stream does not start with a frame: it is shorter than a header, its
header is not in order, or its payload is cut. -/
theorem parse_eq_none_iff (data : List α) :
    F.parse data = none ↔ ¬F.Complete data ∨ ¬F.ok (F.load data) := by
  rw [parse]
  split_ifs with h
  · simp [h.1, h.2]
  · simp only [true_iff]
    exact not_and_or.mp h

end HeaderFormat

end DirectStorage
