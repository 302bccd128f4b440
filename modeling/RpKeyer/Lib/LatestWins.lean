/-
# A latest-wins channel

One slot between a producer and a consumer: a post overwrites what has not
been read, a take empties the slot. The channel carries its history, the
values posted and the values taken, in order.

Whatever the order of posts and takes, the values taken, with the one still
in the slot, are a subsequence of the values posted and end in the last one
posted (`Chan.Ok`): what is overwritten is lost, but never the final value.
-/
import Mathlib.Data.List.Basic

namespace LatestWins

variable {α : Type*}

/-- The channel: its slot, and the history of what went in and came out. -/
structure Chan (α : Type*) where
  slot : Option α
  posted : List α
  taken : List α

/-- Nothing posted yet. -/
def Chan.empty : Chan α := ⟨none, [], []⟩

/-- A post overwrites an unread value. -/
def Chan.post (c : Chan α) (x : α) : Chan α := ⟨some x, c.posted ++ [x], c.taken⟩

/-- A take empties the slot; it is blocked on an empty one. -/
def Chan.take (c : Chan α) : Option (α × Chan α) :=
  c.slot.map fun x => (x, ⟨none, c.posted, c.taken ++ [x]⟩)

/-- The values taken and the unread one. -/
def Chan.seen (c : Chan α) : List α := c.taken ++ c.slot.toList

/-- What holds of a channel that is only posted to and taken from. -/
structure Chan.Ok (c : Chan α) : Prop where
  sub : c.seen.Sublist c.posted
  last : c.seen.getLast? = c.posted.getLast?

theorem Chan.ok_empty : (Chan.empty : Chan α).Ok := ⟨List.Sublist.refl _, rfl⟩

theorem Chan.Ok.post {c : Chan α} (h : c.Ok) (x : α) : (c.post x).Ok where
  sub := (((List.sublist_append_left _ _).trans h.sub).append (List.Sublist.refl [x]))
  last := by simp [Chan.seen, Chan.post]

theorem Chan.take_some {c c' : Chan α} {x : α} (h : c.take = some (x, c')) :
    c.slot = some x ∧ c' = ⟨none, c.posted, c.taken ++ [x]⟩ := by
  unfold Chan.take at h
  cases hs : c.slot with
  | none => rw [hs] at h; cases h
  | some y =>
    rw [hs] at h
    simp only [Option.map_some, Option.some.injEq, Prod.mk.injEq] at h
    exact ⟨by rw [h.1], by rw [← h.2, h.1]⟩

/-- A take moves a value from the slot to the history: `seen` is the same. -/
theorem Chan.Ok.take {c c' : Chan α} {x : α} (h : c.Ok) (ht : c.take = some (x, c')) : c'.Ok := by
  obtain ⟨hs, rfl⟩ := Chan.take_some ht
  have e : Chan.seen ⟨none, c.posted, c.taken ++ [x]⟩ = c.seen := by simp [Chan.seen, hs]
  exact ⟨e ▸ h.sub, e ▸ h.last⟩

/-- The values taken are a subsequence of the values posted. -/
theorem Chan.Ok.taken_sublist {c : Chan α} (h : c.Ok) : c.taken.Sublist c.posted :=
  (List.sublist_append_left _ _).trans h.sub

/-- When nothing is unread, the last value taken is the last one posted. -/
theorem Chan.Ok.last_taken {c : Chan α} (h : c.Ok) (hs : c.slot = none) :
    c.taken.getLast? = c.posted.getLast? := by
  rw [← h.last, Chan.seen, hs, Option.toList_none, List.append_nil]

end LatestWins
