import Mathlib.Data.List.Basic

/-!
# Transfers over a descriptor

The calls of `read` and `write` that a program makes on a descriptor, with what it asks for and
what it is answered. `Delivers` is the other side of the reads: the calls are answered from a
stream of items, a piece at a time, and `[]` is only answered at its end.
-/

namespace Utils

variable {A E : Type*}

/-- A `read`: the room behind the pointer, the number of items asked for, and the answer. -/
structure ReadCall (A E : Type*) where
  room : ℕ
  count : ℕ
  result : Except E (List A)

/-- A `write` of `count` items of a buffer, from `off` on. -/
structure WriteCall (A E : Type*) where
  buf : List A
  off : ℕ
  count : ℕ
  result : Except E ℕ

/-! ## What was moved -/

def ReadCall.got (c : ReadCall A E) : List A :=
  match c.result with
  | .ok items => items
  | .error _ => []

theorem ReadCall.got_of_ok {c : ReadCall A E} {items : List A} (h : c.result = .ok items) :
    c.got = items := by
  rw [got, h]

def received (calls : List (ReadCall A E)) : List A := calls.flatMap ReadCall.got

/-- The items are those of the buffer. -/
def WriteCall.InRange (c : WriteCall A E) : Prop := c.off + c.count ≤ c.buf.length

def WriteCall.taken (c : WriteCall A E) : List A :=
  match c.result with
  | .ok n => (c.buf.drop c.off).take n
  | .error _ => []

def sent (calls : List (WriteCall A E)) : List A := calls.flatMap WriteCall.taken

@[simp] theorem received_nil : received ([] : List (ReadCall A E)) = [] := rfl

@[simp] theorem received_cons (c : ReadCall A E) (calls : List (ReadCall A E)) :
    received (c :: calls) = c.got ++ received calls := rfl

@[simp] theorem sent_nil : sent ([] : List (WriteCall A E)) = [] := rfl

@[simp] theorem sent_cons (c : WriteCall A E) (calls : List (WriteCall A E)) :
    sent (c :: calls) = c.taken ++ sent calls := rfl

theorem sent_append (calls calls' : List (WriteCall A E)) :
    sent (calls ++ calls') = sent calls ++ sent calls' := List.flatMap_append

/-! ## Streams -/

/-- The calls are answered from a stream, of which the second list is left. A call that fails
leaves the stream as it is. -/
inductive Delivers : List A → List (ReadCall A E) → List A → Prop
  | nil (left : List A) : Delivers left [] left
  | piece (items : List A) {room count calls left left'} : items ≠ [] → items.length ≤ count →
      Delivers left calls left' →
      Delivers (items ++ left) (⟨room, count, .ok items⟩ :: calls) left'
  | eof {room count calls left'} : Delivers [] calls left' →
      Delivers [] (⟨room, count, .ok []⟩ :: calls) left'
  | failed {room count e calls left left'} : Delivers left calls left' →
      Delivers left (⟨room, count, .error e⟩ :: calls) left'

theorem delivers_cons_ok {left left' items : List A} {room count : ℕ}
    {calls : List (ReadCall A E)}
    (h : Delivers left (⟨room, count, .ok items⟩ :: calls) left') :
    ∃ rest, left = items ++ rest ∧ items.length ≤ count ∧ (items = [] → left = []) ∧
      Delivers rest calls left' := by
  cases h with
  | piece _ hne hlen h => exact ⟨_, rfl, hlen, fun heq => absurd heq hne, h⟩
  | eof h => exact ⟨[], rfl, Nat.zero_le _, fun _ => rfl, h⟩

end Utils
