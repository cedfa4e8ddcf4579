import Mathlib.Data.List.Basic

/-!
# Incremental parsing

A stream of items arrives in chunks whose boundaries mean nothing. A receiver keeps what it cannot
yet use, appends the next chunk behind it and takes off every item that is now whole. This file
says when such a receiver computes what one left-to-right pass over the whole stream computes.

The only thing asked of the item grammar is that its verdict on a buffer is decided by a prefix of
it: an item that is there stays there, with the same value, when more input follows, and so does a
rejection. Nothing is asked of the verdict "not yet", which is exactly the one that more input may
change.
-/

namespace Incremental

universe u v

variable {α : Type u} {β : Type v}

/-- What the head of a buffer says. -/
inductive Head (α : Type u) (β : Type v) where
  /-- No whole item is there yet. -/
  | more
  /-- No item starts like this. -/
  | reject
  /-- A whole item is there, with `rest` behind it. -/
  | item (value : β) (rest : List α)

/-- A grammar of items whose verdict on a buffer is decided by a prefix of the buffer. -/
structure ItemParser (α : Type u) (β : Type v) where
  /-- The verdict on the head of a buffer. -/
  head : List α → Head α β
  /-- The empty buffer says nothing. -/
  head_nil : head [] = .more
  /-- An item takes up room. -/
  length_lt : ∀ {l v r}, head l = .item v r → r.length < l.length
  /-- An item stays an item when more input follows. -/
  item_append : ∀ {l v r}, head l = .item v r → ∀ m, head (l ++ m) = .item v (r ++ m)
  /-- A rejection stays a rejection when more input follows. -/
  reject_append : ∀ {l}, head l = .reject → ∀ m, head (l ++ m) = .reject

/-- What a pass over some input comes to: the items found, whether the input was acceptable, and
the input left over. -/
@[ext] structure Outcome (α : Type u) (β : Type v) where
  items : List β
  ok : Bool
  rest : List α
deriving DecidableEq

namespace Outcome

/-- The outcome before any input. -/
def start : Outcome α β := ⟨[], true, []⟩

/-- The outcome with one more item in front. -/
def cons (v : β) (o : Outcome α β) : Outcome α β := { o with items := v :: o.items }

/-- One pass followed by another that carries on from its leftovers. -/
def andThen (o p : Outcome α β) : Outcome α β := { p with items := o.items ++ p.items }

@[simp] theorem cons_andThen (v : β) (o p : Outcome α β) :
    (o.cons v).andThen p = (o.andThen p).cons v := rfl

@[simp] theorem andThen_of_items_nil {o : Outcome α β} (h : o.items = []) (p : Outcome α β) :
    o.andThen p = p := by
  rw [andThen, h, List.nil_append]

end Outcome

namespace ItemParser

variable (P : ItemParser α β)

/-! ## The reference pass -/

/-- One left-to-right pass over the whole input. -/
def parse (l : List α) : Outcome α β :=
  match _h : P.head l with
  | .more => ⟨[], true, l⟩
  | .reject => ⟨[], false, l⟩
  | .item v r => (parse r).cons v
termination_by l.length
decreasing_by exact P.length_lt ‹_›

variable {P}

theorem parse_more {l : List α} (h : P.head l = .more) : P.parse l = ⟨[], true, l⟩ := by
  rw [parse]
  split
  · rfl
  · next h' => rw [h] at h'; exact nomatch h'
  · next h' => rw [h] at h'; exact nomatch h'

theorem parse_reject {l : List α} (h : P.head l = .reject) : P.parse l = ⟨[], false, l⟩ := by
  rw [parse]
  split
  · next h' => rw [h] at h'; exact nomatch h'
  · rfl
  · next h' => rw [h] at h'; exact nomatch h'

theorem parse_item {l r : List α} {v : β} (h : P.head l = .item v r) :
    P.parse l = (P.parse r).cons v := by
  rw [parse]
  split
  · next h' => rw [h] at h'; exact nomatch h'
  · next h' => rw [h] at h'; exact nomatch h'
  · next h' =>
    rw [h] at h'
    cases h'
    rfl

@[simp] theorem parse_nil : P.parse [] = Outcome.start := parse_more P.head_nil

/-- Induction along the pass: one case for each verdict. -/
theorem parse_induction {motive : List α → Prop} (more : ∀ l, P.head l = .more → motive l)
    (reject : ∀ l, P.head l = .reject → motive l)
    (item : ∀ l v r, P.head l = .item v r → motive r → motive l) (l : List α) : motive l := by
  induction hn : l.length using Nat.strongRecOn generalizing l with
  | ind n ih =>
    cases h : P.head l with
    | more => exact more l h
    | reject => exact reject l h
    | item v r => exact item l v r h (ih r.length (hn ▸ P.length_lt h) r rfl)

theorem head_rest_of_ok (l : List α) : (P.parse l).ok = true → P.head (P.parse l).rest = .more := by
  induction l using P.parse_induction with
  | more l h => rw [parse_more h]; exact fun _ ↦ h
  | reject l h => rw [parse_reject h]; exact fun hok ↦ nomatch hok
  | item l v r h ih => rw [parse_item h]; exact ih

/-- What is left over after a rejecting pass starts with what was rejected. -/
theorem head_rest_of_not_ok (l : List α) :
    (P.parse l).ok = false → P.head (P.parse l).rest = .reject := by
  induction l using P.parse_induction with
  | more l h => rw [parse_more h]; exact fun hok ↦ nomatch hok
  | reject l h => rw [parse_reject h]; exact fun _ ↦ h
  | item l v r h ih => rw [parse_item h]; exact ih

/-- **The pass can be cut anywhere.** Passing over `l ++ m` is passing over `l` and carrying on
from the leftovers. -/
theorem parse_append (l m : List α) :
    P.parse (l ++ m) = (P.parse l).andThen (P.parse ((P.parse l).rest ++ m)) := by
  induction l using P.parse_induction with
  | more l h =>
    rw [parse_more h]
    exact (Outcome.andThen_of_items_nil rfl _).symm
  | reject l h =>
    rw [parse_reject h]
    exact (Outcome.andThen_of_items_nil rfl _).symm
  | item l v r h ih =>
    rw [parse_item h, parse_item (P.item_append h m), ih, Outcome.cons_andThen]
    rfl

theorem items_prefix_append (l m : List α) : (P.parse l).items <+: (P.parse (l ++ m)).items := by
  rw [parse_append]
  exact List.prefix_append _ _

/-- After a rejection, whatever follows finds no item and is rejected. -/
theorem parse_append_of_not_ok {l : List α} (h : (P.parse l).ok = false) (m : List α) :
    P.parse ((P.parse l).rest ++ m) = ⟨[], false, (P.parse l).rest ++ m⟩ :=
  parse_reject (P.reject_append (head_rest_of_not_ok l h) m)

theorem ok_of_append_ok {l m : List α} (h : (P.parse (l ++ m)).ok = true) :
    (P.parse l).ok = true := by
  by_contra hl
  rw [Bool.not_eq_true] at hl
  rw [parse_append, parse_append_of_not_ok hl] at h
  exact nomatch h

/-! ## Feeding chunks -/

variable (P)

/-- Feed one chunk behind the leftovers of `o`. -/
def feed (o : Outcome α β) (chunk : List α) : Outcome α β :=
  o.andThen (P.parse (o.rest ++ chunk))

/-- Feed a list of chunks, one after the other. -/
def feedAll (chunks : List (List α)) : Outcome α β := chunks.foldl P.feed Outcome.start

variable {P}

theorem foldl_feed (chunks : List (List α)) (l : List α) :
    chunks.foldl P.feed (P.parse l) = P.parse (l ++ chunks.flatten) := by
  induction chunks generalizing l with
  | nil => rw [List.foldl_nil, List.flatten_nil, List.append_nil]
  | cons c cs ih =>
    have hfeed : P.feed (P.parse l) c = P.parse (l ++ c) := (parse_append l c).symm
    rw [List.foldl_cons, hfeed, ih, List.flatten_cons, List.append_assoc]

/-- **Chunk boundaries mean nothing.** Feeding chunks comes to what one pass over their
concatenation comes to. -/
theorem feedAll_eq_parse (chunks : List (List α)) :
    P.feedAll chunks = P.parse chunks.flatten := by
  rw [feedAll, ← P.parse_nil, foldl_feed, List.nil_append]

/-! ## Encoders -/

/-- A pass over a list of encoded items finds them all and then carries on behind them. -/
theorem parse_flatMap_append {encode : β → List α} {vs : List β}
    (h : ∀ v ∈ vs, ∀ m, P.head (encode v ++ m) = .item v m) (m : List α) :
    P.parse (vs.flatMap encode ++ m) = { P.parse m with items := vs ++ (P.parse m).items } := by
  induction vs with
  | nil => rfl
  | cons v vs ih =>
    have htail := ih fun w hw ↦ h w (List.mem_cons_of_mem _ hw)
    rw [List.flatMap_cons, List.append_assoc, parse_item (h v List.mem_cons_self _), htail]
    rfl

/-- A pass over a list of encoded items finds exactly them and leaves nothing over. -/
theorem parse_flatMap {encode : β → List α} {vs : List β}
    (h : ∀ v ∈ vs, ∀ m, P.head (encode v ++ m) = .item v m) :
    P.parse (vs.flatMap encode) = ⟨vs, true, []⟩ := by
  have hall := parse_flatMap_append h []
  rw [List.append_nil, parse_nil] at hall
  rw [hall, Outcome.start, List.append_nil]

end ItemParser

end Incremental
