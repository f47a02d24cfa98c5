import Mathlib.Data.List.Basic

/-
  Values written over the head of a buffer and read back.

  A writer that fills a buffer from its start, part by part,
  leaves what it wrote and then what was there before. A
  codec is exact when every value that fits is written and
  read back, every payload that is read is written again as
  it was, and everything else is refused with the buffer as
  it was.

  Key definitions include:
    * `Wire.put`
    * `Wire.headed`
    * `Wire.Codec`
    * `Wire.Codec.Exact`
    * `Wire.Codec.fill`

  Key rules include:
    * `Wire.put_headed`, `Wire.set_headed`
    * `Wire.Codec.exact_of_fill`
-/

namespace Wire

variable {α β : Type}

------------------------------------------------------------
-- Buffers
------------------------------------------------------------

/- Bytes copied over those of a buffer from an offset on. -/
def put (out : List β) (offset : Nat) (bytes : List β) :
    List β :=
  out.take offset ++ bytes ++
    out.drop (offset + bytes.length)

/- A buffer whose head these bytes have replaced. -/
def headed (out bytes : List β) : List β :=
  bytes ++ out.drop bytes.length

variable {out bytes more : List β} {offset : Nat} {b : β}

@[simp] theorem headed_nil (out : List β) :
    headed out [] = out :=
  rfl

/- What was written is the head of the buffer. -/
theorem take_headed (out bytes : List β) :
    (headed out bytes).take bytes.length = bytes :=
  List.take_left

theorem put_zero (out bytes : List β) :
    put out 0 bytes = headed out bytes := by
  rw [put, headed, Nat.zero_add]
  rfl

/- Copied over as many bytes, it takes their place. -/
theorem put_between
    {a b c : List β}
    (hOffset : a.length = offset)
    (hLength : b.length = more.length) :
    put (a ++ b ++ c) offset more = a ++ more ++ c := by
  rw [put, ← hOffset, ← hLength, ← List.drop_drop,
    List.append_assoc a b c, List.take_left, List.drop_left,
    List.drop_left]

/- Copied behind what was written, it is written as well. -/
theorem put_headed
    (hOffset : bytes.length = offset) :
    put (headed out bytes) offset more =
      headed out (bytes ++ more) := by
  rw [put, ← hOffset, take_headed, headed, headed,
    ← List.drop_drop, List.drop_left, List.drop_drop,
    List.length_append]

/- So is a single byte that is set there. -/
theorem set_headed
    (hOffset : bytes.length = offset)
    (hRoom : offset < out.length) :
    (headed out bytes).set offset b =
      headed out (bytes ++ [b]) := by
  subst hOffset
  rw [headed, headed, List.drop_eq_getElem_cons hRoom,
    List.set_append_right _ _ (Nat.le_refl _),
    Nat.sub_self, List.set_cons_zero, List.length_append,
    List.append_assoc]
  rfl

theorem set_zero (hRoom : 0 < out.length) :
    out.set 0 b = headed out [b] := by
  have hNone : ([] : List β).length = 0 := rfl
  exact set_headed hNone hRoom

------------------------------------------------------------
-- Codecs
------------------------------------------------------------

/-
  Values of one kind and their bytes. The encoder gives how
  much it wrote, if anything, and the buffer afterwards.
-/
structure Codec (α β : Type) where
  fits : α → Prop
  size : α → Nat
  decode : List β → Option α
  encode : α → List β → Option Nat × List β

namespace Codec

/- The encoding keeps to a limit and to the room given. -/
def HasRoom
    (codec : Codec α β)
    (limit : Nat)
    (a : α)
    (room : Nat) :
    Prop :=
  codec.size a ≤ limit ∧ codec.size a ≤ room

structure Exact (codec : Codec α β) (limit : Nat) :
    Prop where
  written :
    ∀ a out, codec.fits a →
      codec.HasRoom limit a out.length →
      ∃ bytes,
        codec.encode a out =
            (some bytes.length, headed out bytes) ∧
          codec.decode bytes = some a
  rewritten :
    ∀ payload a out, payload.length ≤ limit →
      payload.length ≤ out.length →
        codec.decode payload = some a →
          codec.encode a out =
            (some payload.length, headed out payload)
  refused :
    ∀ a out,
      ¬ (codec.fits a ∧ codec.HasRoom limit a out.length) →
        codec.encode a out = (none, out)

/-
  What a writer that is told how much room there is makes of
  a value, put into the buffer; nothing, where it refuses.
-/
def fill (rendered : Option (List β)) (out : List β) :
    Option Nat × List β :=
  match rendered with
  | none => (none, out)
  | some bytes => (some bytes.length, headed out bytes)

/-
  A codec is exact when its encoder fills the buffer with
  what a writer renders, and that writer renders what has
  room, is undone by the decoder and undoes it.
-/
theorem exact_of_fill
    {codec : Codec α β}
    {limit : Nat}
    {render : α → Nat → Option (List β)}
    (hFill :
      ∀ a out,
        codec.encode a out =
          fill (render a out.length) out)
    (hRenders :
      ∀ a room,
        (render a room).isSome = true ↔
          codec.fits a ∧ codec.HasRoom limit a room)
    (hDecode :
      ∀ a room bytes, render a room = some bytes →
        codec.decode bytes = some a)
    (hRender :
      ∀ payload a, codec.decode payload = some a →
        ∀ room, payload.length ≤ limit →
          payload.length ≤ room →
            render a room = some payload) :
    codec.Exact limit where
  written := by
    intro a out hFits hRoom
    have hSome := (hRenders a out.length).mpr ⟨hFits, hRoom⟩
    rcases Option.isSome_iff_exists.mp hSome with
      ⟨bytes, hBytes⟩
    refine ⟨bytes, ?_, hDecode a _ bytes hBytes⟩
    rw [hFill, hBytes]
    rfl
  rewritten := by
    intro payload a out hLimit hOut hPayload
    rw [hFill, hRender payload a hPayload _ hLimit hOut]
    rfl
  refused := by
    intro a out hNot
    have hNone : render a out.length = none := by
      rw [← hRenders, Bool.not_eq_true,
        Option.isSome_eq_false_iff,
        Option.isNone_iff_eq_none] at hNot
      exact hNot
    rw [hFill, hNone]
    rfl

end Codec

end Wire
