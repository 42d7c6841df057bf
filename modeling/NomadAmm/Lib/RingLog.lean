import Mathlib.Tactic.Common

/-! A ring of fixed size that holds the newest entries of a log. The log is a list,
newest first; the ring is walked backwards from the index of the newest entry. -/

namespace NomadAmm.Lib.RingLog

/-- The index `k` entries before `i`, wrapping from the first slot to the last. -/
def back (n i k : Nat) : Nat := if k ≤ i then i - k else i + n - k

/-- The index an advancing ring writes next. -/
def forward (n i : Nat) : Nat := if i = n - 1 then 0 else i + 1

variable {n i j k : Nat}

@[simp] theorem back_zero (n i : Nat) : back n i 0 = i := by
  simp [back]

theorem back_inj (hj : j < n) (hk : k < n) (h : back n i j = back n i k) : j = k := by
  unfold back at h
  split at h <;> split at h <;> omega

/-- Less than a full turn back from a slot is another slot. -/
theorem ne_back (hk : k + 1 < n) : i ≠ back n i (k + 1) := by
  intro h
  have hzero : 0 = k + 1 := back_inj (by omega) hk ((back_zero n i).trans h)
  omega

theorem forward_lt (hi : i < n) : forward n i < n := by
  unfold forward
  split <;> omega

/-- Walking back from the next index passes through the old one first. -/
theorem back_forward (hi : i < n) (hk : k + 1 < n) : back n (forward n i) (k + 1) = back n i k := by
  unfold back forward
  split <;> split <;> split <;> omega

variable {α : Type} {buf : Vector α n} {a b : α} {log : List α}

/-- The ring holds as much of the log as it has room for. -/
structure Holds (buf : Vector α n) (i : Nat) (log : List α) : Prop where
  index : i < n
  entries : ∀ k, k < n → ∀ a, log[k]? = some a → buf[back n i k]? = some a

theorem set_other (h : i ≠ j) : (buf.setIfInBounds i b)[j]? = buf[j]? := by
  rw [Vector.getElem?_setIfInBounds]
  simp [h]

theorem set_self (h : i < n) : (buf.setIfInBounds i b)[i]? = some b := by
  rw [Vector.getElem?_setIfInBounds]
  simp [h]

theorem Holds.start (hi : i < n) : Holds (buf.setIfInBounds i b) i [b] where
  index := hi
  entries k hk a ha := by
    cases k with
    | zero =>
      rw [List.getElem?_cons_zero] at ha
      rw [back_zero, set_self hi, ha]
    | succ k => simp at ha

/-- Rewriting the newest slot rewrites the head of the log. -/
theorem Holds.amend (h : Holds buf i (a :: log)) : Holds (buf.setIfInBounds i b) i (b :: log) where
  index := h.index
  entries k hk c hc := by
    cases k with
    | zero =>
      rw [List.getElem?_cons_zero] at hc
      rw [back_zero, set_self h.index, hc]
    | succ k =>
      rw [List.getElem?_cons_succ] at hc
      rw [set_other (ne_back hk)]
      exact h.entries (k + 1) hk c (by rwa [List.getElem?_cons_succ])

/-- Writing the next slot puts an entry in front of the log; what falls out of the
ring is the oldest entry it held. -/
theorem Holds.push (h : Holds buf i log) :
    Holds (buf.setIfInBounds (forward n i) b) (forward n i) (b :: log) where
  index := forward_lt h.index
  entries k hk c hc := by
    have hf := forward_lt h.index
    cases k with
    | zero =>
      rw [List.getElem?_cons_zero] at hc
      rw [back_zero, set_self hf, hc]
    | succ k =>
      rw [List.getElem?_cons_succ] at hc
      rw [set_other (ne_back hk), back_forward h.index hk]
      exact h.entries k (by omega) c hc

theorem Holds.newest (h : Holds buf i (a :: log)) : buf[i]? = some a := by
  have := h.entries 0 (by have := h.index; omega) a rfl
  rwa [back_zero] at this

end NomadAmm.Lib.RingLog
