/-
# What a history tells

The phase in which a facility began, the phase it is in and the changes
that it has recorded are kept apart, and nothing in their types ties them
together.  `History.Tells` says how they belong together: the first change
leaves the phase of the beginning, each change enters the phase that comes
next, each leaves the phase that the one before it has entered, and the
last one has entered the phase of today.

One more change to the next phase keeps this (`Tells.record`).  All that
can be read off a history follows: its path walks from the beginning to
today without a step left out (`Tells.walk`), so it has no phase twice
(`Walk.nodup`), and the number of changes is the distance between the two
phases (`Tells.length_changes`).

Of the time of a change only one thing is asked, that no change is stamped
before an earlier one; then the duration of a history leads exactly from
its first time to its last (`duration?_eq_some`).  Only a leap second could
spoil this, since it has no second of its own.
-/
import Passage.History
import Mathlib.Data.List.Chain

namespace Passage

/-! ## Walks through the phases -/

namespace Phase

/-- How many phases come before this one. -/
def rank : Phase → Nat
  | new => 0
  | transitioningTo => 1
  | active => 2
  | transitioningFrom => 3
  | finished => 4

theorem rank_of_next {p q : Phase} (h : p.next = some q) : q.rank = p.rank + 1 := by
  cases p <;> cases h <;> rfl

theorem rank_le (p : Phase) : p.rank ≤ finished.rank := by
  cases p <;> decide

/-- The phases from `first` to `last`, each of them the one that comes next. -/
structure Walk (first last : Phase) (ps : List Phase) : Prop where
  head : ps.head? = some first
  last : ps.getLast? = some last
  steps : ps.IsChain fun p q => p.next = some q

theorem Walk.length {first last : Phase} {ps : List Phase} (h : Walk first last ps) :
    first.rank + ps.length = last.rank + 1 := by
  induction ps generalizing first with
  | nil => exact absurd h.head (by simp)
  | cons p rest ih =>
      obtain rfl : p = first := Option.some.inj h.head
      cases rest with
      | nil =>
          obtain rfl : p = last := Option.some.inj h.last
          rfl
      | cons q rest =>
          obtain ⟨hpq, hsteps⟩ := List.isChain_cons_cons.mp h.steps
          have hrest := ih ⟨rfl, List.getLast?_cons_cons.symm.trans h.last, hsteps⟩
          rw [rank_of_next hpq] at hrest
          rw [List.length_cons]
          omega

/-- Nothing leads back, so no phase is met twice. -/
theorem Walk.nodup {first last : Phase} {ps : List Phase} (h : Walk first last ps) : ps.Nodup := by
  have hup : ps.IsChain fun p q => p.rank < q.rank :=
    h.steps.imp fun p q hpq => by rw [rank_of_next hpq]; exact Nat.lt_succ_self _
  have : Trans (fun p q : Phase => p.rank < q.rank) (fun p q : Phase => p.rank < q.rank)
      (fun p q : Phase => p.rank < q.rank) := ⟨fun hpq hqr => Nat.lt_trans hpq hqr⟩
  exact hup.pairwise.imp fun hlt heq => absurd (congrArg rank heq) (Nat.ne_of_lt hlt)

end Phase

/-! ## Points in time -/

namespace Timestamp

/-- The second point does not lie before the first: it has a later second, or the same one and no
fewer nanoseconds. -/
def NotAfter (a b : Timestamp) : Prop := a.secs < b.secs ∨ a.secs = b.secs ∧ a.nanos ≤ b.nanos

instance decNotAfter (a b : Timestamp) : Decidable (a.NotAfter b) :=
  inferInstanceAs (Decidable (_ ∨ _ ∧ _))

theorem notAfter_refl (a : Timestamp) : a.NotAfter a := Or.inr ⟨rfl, Nat.le_refl _⟩

/-- Outside leap seconds the sign of the difference tells which of two points comes first. -/
theorem notAfter_iff {a b : Timestamp} (ha : a.IsOrdinary) (hb : b.IsOrdinary) :
    a.NotAfter b ↔ 0 ≤ a.difference b := by
  rw [NotAfter, difference, leapBetween_eq_zero ha hb]
  simp only [IsOrdinary, Duration.perSecond] at ha hb ⊢
  omega

end Timestamp

namespace History

/-! ## Phases and changes -/

/-- The history leads from the first phase to the current one, step by step. -/
structure Tells (h : History) (first current : Phase) : Prop where
  /-- The first change has left the first phase. -/
  source : ∀ c, h.changes.head? = some c → c.source = first
  next : ∀ c ∈ h.changes, c.source.next = some c.target
  joined : h.changes.IsChain fun a b => b.source = a.target
  /-- The last change has entered the current phase; without changes that is the first one. -/
  target : current = (h.last?.map PhaseChange.target).getD first

theorem tells_empty (first : Phase) : empty.Tells first first where
  source c hc := absurd hc (by simp [empty])
  next c hc := absurd hc (by simp [empty])
  joined := .nil
  target := rfl

/-- A change from the current phase to the next one goes on with the tale. -/
theorem Tells.record {h : History} {first current target : Phase} (ht : h.Tells first current)
    (hnext : current.next = some target) (now : Timestamp) (attempt : Nat) :
    (h.record ⟨current, target, now, attempt⟩).Tells first target := by
  obtain ⟨changes⟩ := h
  refine ⟨?_, ?_, ?_, ?_⟩
  · intro c hc
    cases changes with
    | nil =>
        obtain rfl := Option.some.inj hc
        exact ht.target
    | cons d rest => exact ht.source c hc
  · intro c hc
    rcases List.mem_append.mp hc with hc | hc
    · exact ht.next c hc
    · obtain rfl := List.mem_singleton.mp hc
      exact hnext
  · refine List.isChain_append.mpr ⟨ht.joined, .singleton _, ?_⟩
    intro a ha b hb
    obtain rfl := Option.some.inj hb
    show current = a.target
    have hcurrent := ht.target
    rw [last?, Option.mem_def.mp ha] at hcurrent
    exact hcurrent
  · show target = ((changes ++ [_]).getLast?.map PhaseChange.target).getD first
    rw [List.getLast?_concat]
    rfl

/-! ## The path -/

/-- Changes that are joined to each other walk through the phases. -/
theorem isChain_targets {c : PhaseChange} {cs : List PhaseChange}
    (hnext : ∀ x ∈ c :: cs, x.source.next = some x.target)
    (hjoined : (c :: cs).IsChain fun a b => b.source = a.target) :
    (c.source :: (c :: cs).map PhaseChange.target).IsChain fun p q => p.next = some q := by
  induction cs generalizing c with
  | nil => exact List.isChain_cons_cons.mpr ⟨hnext c List.mem_cons_self, .singleton _⟩
  | cons d rest ih =>
      obtain ⟨hd, hrest⟩ := List.isChain_cons_cons.mp hjoined
      have hwalk := ih (fun x hx => hnext x (List.mem_cons_of_mem _ hx)) hrest
      rw [hd] at hwalk
      exact List.isChain_cons_cons.mpr ⟨hnext c List.mem_cons_self, hwalk⟩

theorem Tells.walk {h : History} {first current : Phase} (ht : h.Tells first current)
    (hne : h.changes ≠ []) : Phase.Walk first current h.path := by
  obtain ⟨changes⟩ := h
  cases changes with
  | nil => exact absurd rfl hne
  | cons c cs =>
      refine ⟨congrArg some (ht.source c rfl), ?_, isChain_targets ht.next ht.joined⟩
      show (c.source :: c.target :: cs.map PhaseChange.target).getLast? = some current
      have hlast : (c.target :: cs.map PhaseChange.target).getLast? =
        (c :: cs).getLast?.map PhaseChange.target := List.getLast?_map (l := c :: cs)
      rw [List.getLast?_cons_cons, hlast, ht.target, last?]
      cases h : (c :: cs).getLast? with
      | none => exact absurd (List.getLast?_eq_none_iff.mp h) (by simp)
      | some d => rfl

/-- There are as many changes as there are steps from the first phase to the current one. -/
theorem Tells.length_changes {h : History} {first current : Phase} (ht : h.Tells first current) :
    first.rank + h.changes.length = current.rank := by
  obtain ⟨changes⟩ := h
  cases changes with
  | nil => exact congrArg Phase.rank ht.target.symm
  | cons c cs =>
      have hlen := (ht.walk (List.cons_ne_nil c cs)).length
      have hpath : (History.mk (c :: cs)).path.length = (c :: cs).length + 1 := by simp [path]
      rw [hpath] at hlen
      show first.rank + (c :: cs).length = current.rank
      omega

/-! ## The times -/

/-- The points in time at which the changes were recorded. -/
def stamps (h : History) : List Timestamp := h.changes.map PhaseChange.timestamp

/-- No change is stamped before the first one. -/
theorem notAfter_last {h : History} {a b : PhaseChange} (ha : h.changes.head? = some a)
    (hb : h.changes.getLast? = some b) (hstamps : h.stamps.Pairwise Timestamp.NotAfter) :
    a.timestamp.NotAfter b.timestamp := by
  obtain ⟨changes⟩ := h
  cases changes with
  | nil => exact absurd ha (by simp)
  | cons c rest =>
      obtain rfl : c = a := Option.some.inj ha
      cases rest with
      | nil =>
          obtain rfl : c = b := Option.some.inj hb
          exact Timestamp.notAfter_refl _
      | cons d rest =>
          have hmem : b ∈ d :: rest := List.mem_of_getLast? (List.getLast?_cons_cons.symm.trans hb)
          exact (List.pairwise_cons.mp hstamps).1 _ (List.mem_map_of_mem hmem)

theorem duration?_eq_some {h : History} {a b : PhaseChange} (ha : h.changes.head? = some a)
    (hb : h.changes.getLast? = some b) (hstamps : h.stamps.Pairwise Timestamp.NotAfter)
    (hfirst : a.timestamp.IsOrdinary) (hlast : b.timestamp.IsOrdinary) :
    ∃ d, h.duration? = some d ∧ b.timestamp = a.timestamp.shift d.nanos := by
  have hle : 0 ≤ a.timestamp.difference b.timestamp :=
    (Timestamp.notAfter_iff hfirst hlast).mp (notAfter_last ha hb hstamps)
  refine ⟨⟨(a.timestamp.difference b.timestamp).toNat⟩, ?_, ?_⟩
  · simp only [duration?, ha, hb, Option.bind_eq_bind, Option.bind_some]
    exact if_pos hle
  · rw [Int.toNat_of_nonneg hle, Timestamp.shift_difference hfirst hlast]

end History
end Passage
