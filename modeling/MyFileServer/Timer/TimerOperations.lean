import MyFileServer.Timer.TimerQueue

/-!
# The operations of the timer queue

While `handleRead` works on the expired entries their timers are out of the
set.  The invariant says which those are; every other timer that is alive has
its entry, under the key that the timer shows.
-/

namespace MyFileServer

open Execution

namespace TimerQueue

abbrev SafeEnds {α : Type} (post : α → Prop) (x : Except TimerFault α) : Prop :=
  Ends (· ≠ .dangling) post x

/-! ## The descriptor -/

def SameTimers (q q' : TimerQueue) : Prop :=
  q'.timers_ = q.timers_ ∧ q'.cell = q.cell

def ArmedFor (q : TimerQueue) (expiration : Timestamp) : Prop :=
  ∃ arming, q.timerfd_ = some arming ∧
    arming.it_value.microSeconds ≤
      max (expiration.microSecondsSinceEpoch_ - arming.now.microSecondsSinceEpoch_) 100

/-- The descriptor is armed for the earliest timer, or for an earlier time. -/
def Armed (q : TimerQueue) : Prop :=
  ∀ e, q.timers_.first = some e → q.ArmedFor e.first

theorem int64_ends (value : ℤ) : SafeEnds (· = value) (int64 value) := by
  unfold int64
  split
  · exact rfl
  · exact TimerFault.noConfusion

theorem microSeconds_timespecOf (dif : ℤ) : (timespecOf dif).microSeconds = dif := by
  simp only [timespecOf, Timespec.microSeconds, Timestamp.kMicroSecondsPerSecond]
  omega

variable {clock : ℕ → Timestamp}

theorem resetTimerfd_ends (q : TimerQueue) (expiration : Timestamp) :
    SafeEnds (fun q' => SameTimers q q' ∧ q'.ArmedFor expiration)
      (q.resetTimerfd clock expiration) := by
  refine (int64_ends _).bind ?_
  rintro dif rfl
  refine ⟨⟨rfl, rfl⟩, _, rfl, ?_⟩
  rw [microSeconds_timespecOf]
  simp only
  split <;> omega

/-! ## The invariant -/

/-- The timers at the addresses `out` are alive and have no entry. -/
structure QueueInv (out : List ℕ) (q : TimerQueue) : Prop where
  key : ∀ e ∈ q.timers_, ∃ t, q.cell e.second = .live t ∧ t.expiration_ = e.first
  kept : ∀ a t, q.cell a = .live t → a ∉ out → ⟨t.expiration_, a⟩ ∈ q.timers_
  apart : ∀ e ∈ q.timers_, e.second ∉ out
  outLive : ∀ a ∈ out, ∃ t, q.cell a = .live t
  bound : ∀ a, q.cell a ≠ .fresh → a < UINTPTR_MAX

theorem start_inv : QueueInv [] {} where
  key := by simp
  kept := by simp
  apart := by simp
  outLive := by simp
  bound := by simp

theorem deref_of_live {q : TimerQueue} {a : ℕ} {t : Timer}
    (hcell : q.cell a = .live t) : q.deref a = .ok t := by
  unfold deref
  rw [hcell]

@[simp] theorem setCell_self (q : TimerQueue) (a : ℕ) (cell : Cell) :
    (q.setCell a cell).cell a = cell :=
  Function.update_self _ _ _

theorem setCell_other {q : TimerQueue} {a b : ℕ} {cell : Cell} (hne : b ≠ a) :
    (q.setCell a cell).cell b = q.cell b :=
  Function.update_of_ne hne _ _

def inserted (q : TimerQueue) (a : ℕ) (t : Timer) : TimerQueue :=
  { q with timers_ := q.timers_.insert ⟨t.expiration_, a⟩ }

namespace QueueInv

variable {out : List ℕ} {q q' : TimerQueue} {a : ℕ} {t : Timer}

theorem of_same (hq : QueueInv out q) (hsame : SameTimers q q') :
    QueueInv out q' := by
  rcases hsame with ⟨htimers, hcell⟩
  constructor
  · rw [htimers, hcell]
    exact hq.key
  · rw [htimers, hcell]
    exact hq.kept
  · rw [htimers]
    exact hq.apart
  · rw [hcell]
    exact hq.outLive
  · rw [hcell]
    exact hq.bound

theorem unique (hq : QueueInv out q) {e e' : Entry} (he : e ∈ q.timers_)
    (he' : e' ∈ q.timers_) (hsecond : e.second = e'.second) : e = e' := by
  rcases hq.key e he with ⟨t, hlive, hfirst⟩
  rcases hq.key e' he' with ⟨t', hlive', hfirst'⟩
  rw [hsecond, hlive'] at hlive
  cases hlive
  have hkey : e.first = e'.first := hfirst.symm.trans hfirst'
  cases e
  cases e'
  simp_all

theorem exists_unique (hq : QueueInv [] q) (hlive : q.cell a = .live t) :
    ∃! e, e ∈ q.timers_ ∧ e.second = a := by
  refine ⟨⟨t.expiration_, a⟩, ⟨hq.kept a t hlive List.not_mem_nil, rfl⟩, ?_⟩
  rintro e ⟨he, hsecond⟩
  exact hq.unique he (hq.kept a t hlive List.not_mem_nil) hsecond

theorem key_setCell (hq : QueueInv (a :: out) q) (cell : Cell) :
    ∀ e ∈ (q.setCell a cell).timers_,
      ∃ t, (q.setCell a cell).cell e.second = .live t ∧ t.expiration_ = e.first := by
  intro e he
  have hne : e.second ≠ a := fun hsecond =>
    hq.apart e he (hsecond ▸ List.mem_cons_self)
  rw [setCell_other hne]
  exact hq.key e he

theorem bound_setCell (hq : QueueInv (a :: out) q) (cell : Cell) :
    ∀ b, (q.setCell a cell).cell b ≠ .fresh → b < UINTPTR_MAX := by
  intro b hb
  by_cases hba : b = a
  · rcases hq.outLive a List.mem_cons_self with ⟨s, hlive⟩
    rw [hba]
    exact hq.bound a (by simp [hlive])
  · rw [setCell_other hba] at hb
    exact hq.bound b hb

/-- The timer of an address that is out may change. -/
theorem setLive (hq : QueueInv (a :: out) q) :
    QueueInv (a :: out) (q.setCell a (.live t)) where
  key := hq.key_setCell _
  kept := by
    intro b s hlive hout
    have hne : b ≠ a := fun hb => hout (hb ▸ List.mem_cons_self)
    rw [setCell_other hne] at hlive
    exact hq.kept b s hlive hout
  apart := hq.apart
  outLive := by
    intro b hb
    by_cases hba : b = a
    · exact ⟨t, by rw [hba, setCell_self]⟩
    · rw [setCell_other hba]
      exact hq.outLive b hb
  bound := hq.bound_setCell _

theorem allocate (hq : QueueInv out q) (hfresh : q.cell a = .fresh)
    (ha : a < UINTPTR_MAX) : QueueInv (a :: out) (q.setCell a (.live t)) where
  key := by
    intro e he
    rcases hq.key e he with ⟨s, hlive, hfirst⟩
    have hne : e.second ≠ a := by
      rintro rfl
      rw [hfresh] at hlive
      cases hlive
    exact ⟨s, by rw [setCell_other hne, hlive], hfirst⟩
  kept := by
    intro b s hlive hout
    rw [List.mem_cons, not_or] at hout
    rw [setCell_other hout.1] at hlive
    exact hq.kept b s hlive hout.2
  apart := by
    intro e he hout
    rcases List.mem_cons.mp hout with hsecond | hold
    · rcases hq.key e he with ⟨s, hlive, _⟩
      rw [hsecond, hfresh] at hlive
      cases hlive
    · exact hq.apart e he hold
  outLive := by
    intro b hb
    by_cases hba : b = a
    · exact ⟨t, by rw [hba, setCell_self]⟩
    · rw [setCell_other hba]
      exact hq.outLive b (List.mem_of_ne_of_mem hba hb)
  bound := by
    intro b hb
    by_cases hba : b = a
    · exact hba ▸ ha
    · rw [setCell_other hba] at hb
      exact hq.bound b hb

theorem insert (hq : QueueInv (a :: out) q) (hlive : q.cell a = .live t)
    (hout : a ∉ out) : QueueInv out (q.inserted a t) where
  key := by
    intro e he
    rcases SortedSet.mem_insert.mp he with rfl | hold
    · exact ⟨t, hlive, rfl⟩
    · exact hq.key e hold
  kept := by
    intro b s hb hbout
    apply SortedSet.mem_insert.mpr
    by_cases hba : b = a
    · subst hba
      rw [show (q.inserted b t).cell b = .live t from hlive, Cell.live.injEq] at hb
      exact .inl (by rw [hb])
    · exact .inr (hq.kept b s hb (by simp [hba, hbout]))
  apart := by
    intro e he
    rcases SortedSet.mem_insert.mp he with rfl | hold
    · exact hout
    · exact fun hmem => hq.apart e hold (List.mem_cons_of_mem a hmem)
  outLive := fun b hb => hq.outLive b (List.mem_cons_of_mem a hb)
  bound := hq.bound

theorem free (hq : QueueInv (a :: out) q) (hout : a ∉ out) :
    QueueInv out (q.setCell a .freed) where
  key := hq.key_setCell _
  kept := by
    intro b s hlive hbout
    have hba : b ≠ a := by
      rintro rfl
      simp at hlive
    rw [setCell_other hba] at hlive
    exact hq.kept b s hlive (by simp [hba, hbout])
  apart := fun e he hmem => hq.apart e he (List.mem_cons_of_mem a hmem)
  outLive := by
    intro b hb
    have hba : b ≠ a := fun h => hout (h ▸ hb)
    rw [setCell_other hba]
    exact hq.outLive b (List.mem_cons_of_mem a hb)
  bound := hq.bound_setCell _

theorem entry_lt_iff (hq : QueueInv out q) {e : Entry} (he : e ∈ q.timers_)
    (now : Timestamp) : e < ⟨now, UINTPTR_MAX⟩ ↔ e.first ≤ now := by
  rcases hq.key e he with ⟨t, hlive, _⟩
  have hbound := hq.bound e.second (by simp [hlive])
  rw [Entry.lt_iff]
  constructor
  · rintro (hlt | ⟨heq, _⟩)
    · exact hlt.le
    · exact heq.le
  · intro hle
    rcases lt_or_eq_of_le hle with hlt | heq
    · exact .inl hlt
    · exact .inr ⟨heq, hbound⟩

theorem nodup_expired (hq : QueueInv [] q) (now : Timestamp) :
    ((q.getExpired now).1.map Entry.second).Nodup := by
  have hsorted := q.timers_.sorted_below ⟨now, UINTPTR_MAX⟩
  refine List.pairwise_map.mpr (hsorted.imp_of_mem ?_)
  intro e e' he he' hlt hsecond
  have heq := hq.unique (SortedSet.mem_below.mp he).1 (SortedSet.mem_below.mp he').1
    hsecond
  exact absurd hlt (heq ▸ lt_irrefl e)

theorem getExpired (hq : QueueInv [] q) (now : Timestamp) :
    QueueInv ((q.getExpired now).1.map Entry.second) (q.getExpired now).2 where
  key := fun e he => hq.key e (SortedSet.mem_eraseBelow.mp he).1
  kept := by
    intro b s hlive hout
    have he := hq.kept b s hlive List.not_mem_nil
    refine SortedSet.mem_eraseBelow.mpr ⟨he, not_lt.mp ?_⟩
    intro hlt
    exact hout (List.mem_map.mpr ⟨_, SortedSet.mem_below.mpr ⟨he, hlt⟩, rfl⟩)
  apart := by
    intro e he hout
    rcases List.mem_map.mp hout with ⟨e', he', hsecond⟩
    rcases SortedSet.mem_eraseBelow.mp he with ⟨hin, hle⟩
    rcases SortedSet.mem_below.mp he' with ⟨hin', hlt⟩
    rw [hq.unique hin' hin hsecond] at hlt
    exact absurd hlt (not_lt.mpr hle)
  outLive := by
    intro b hb
    rcases List.mem_map.mp hb with ⟨e, he, rfl⟩
    rcases hq.key e (SortedSet.mem_below.mp he).1 with ⟨s, hlive, _⟩
    exact ⟨s, hlive⟩
  bound := hq.bound

end QueueInv

/-! ## The operations -/

/-- The timer that `insert` puts in is earlier than all in the set. -/
def earliest (q : TimerQueue) (when_ : Timestamp) : Bool :=
  match q.timers_.first with
  | none => true
  | some it => when_ < it.first

theorem insert_eq {q : TimerQueue} {a : ℕ} {t : Timer} (hlive : q.cell a = .live t) :
    q.insert a = .ok (q.earliest t.expiration_, q.inserted a t) := by
  unfold insert
  rw [deref_of_live hlive]
  rfl

theorem ArmedFor.mono {q : TimerQueue} {s t : Timestamp} (hq : q.ArmedFor s)
    (hle : s ≤ t) : q.ArmedFor t := by
  rcases hq with ⟨arming, hfd, hdif⟩
  refine ⟨arming, hfd, hdif.trans (max_le_max_right _ ?_)⟩
  have hmicro := Timestamp.le_iff.mp hle
  omega

/-- An entry that is not earlier than all others leaves the descriptor armed. -/
theorem Armed.inserted {q : TimerQueue} {a : ℕ} {t : Timer} (hq : q.Armed)
    (hlate : q.earliest t.expiration_ = false) : (q.inserted a t).Armed := by
  intro e hfirst
  unfold earliest at hlate
  cases hold : q.timers_.first with
  | none =>
      rw [hold] at hlate
      cases hlate
  | some e' =>
      rw [hold] at hlate
      refine (hq e' hold).mono ?_
      rcases SortedSet.mem_insert.mp (SortedSet.first_eq_some.mp hfirst).1 with rfl | he
      · exact not_lt.mp (of_decide_eq_false hlate)
      · exact Entry.first_le ((SortedSet.first_eq_some.mp hold).2 e he)

theorem armed_of_earliest {q q' : TimerQueue} {a : ℕ} {t : Timer}
    (hearly : q.earliest t.expiration_ = true) (hsame : SameTimers (q.inserted a t) q')
    (harmed : q'.ArmedFor t.expiration_) : q'.Armed := by
  intro e hfirst
  rw [hsame.1] at hfirst
  refine harmed.mono ?_
  unfold earliest at hearly
  rcases SortedSet.mem_insert.mp (SortedSet.first_eq_some.mp hfirst).1 with rfl | he
  · exact le_rfl
  · cases hold : q.timers_.first with
    | none => exact absurd he (SortedSet.first_eq_none.mp hold e)
    | some e' =>
        rw [hold] at hearly
        have hle := Entry.first_le ((SortedSet.first_eq_some.mp hold).2 e he)
        exact (of_decide_eq_true hearly).le.trans hle

/-- The timers of `adds` are new at their addresses; nothing else changes. -/
structure Allocates (adds : List NewTimer) (q q' : TimerQueue) : Prop where
  nodup : (adds.map NewTimer.address).Nodup
  new : ∀ new ∈ adds, q.cell new.address = .fresh ∧ q'.cell new.address = .live new.timer
  other : ∀ a, a ∉ adds.map NewTimer.address → q'.cell a = q.cell a

theorem Allocates.nil {q : TimerQueue} : Allocates [] q q where
  nodup := List.nodup_nil
  new := by simp
  other := fun _ _ => rfl

theorem Allocates.append {adds adds' : List NewTimer} {q q₁ q₂ : TimerQueue}
    (h₁ : Allocates adds q q₁) (h₂ : Allocates adds' q₁ q₂) :
    Allocates (adds ++ adds') q q₂ := by
  have hdisjoint : ∀ new ∈ adds, new.address ∉ adds'.map NewTimer.address := by
    intro new hnew hmem
    rcases List.mem_map.mp hmem with ⟨new', hnew', haddress⟩
    have hlive := (h₁.new new hnew).2
    rw [← haddress, (h₂.new new' hnew').1] at hlive
    cases hlive
  have hapart : ∀ new ∈ adds', new.address ∉ adds.map NewTimer.address := by
    intro new hnew hmem
    rcases List.mem_map.mp hmem with ⟨new', hnew', haddress⟩
    exact hdisjoint new' hnew' (haddress ▸ List.mem_map_of_mem hnew)
  constructor
  · rw [List.map_append]
    refine h₁.nodup.append h₂.nodup ?_
    intro a ha ha'
    rcases List.mem_map.mp ha with ⟨new, hnew, rfl⟩
    exact hdisjoint new hnew ha'
  · intro new hnew
    rcases List.mem_append.mp hnew with hold | hlate
    · refine ⟨(h₁.new new hold).1, ?_⟩
      rw [h₂.other _ (hdisjoint new hold)]
      exact (h₁.new new hold).2
    · refine ⟨?_, (h₂.new new hlate).2⟩
      rw [← h₁.other _ (hapart new hlate)]
      exact (h₂.new new hlate).1
  · intro a ha
    rw [List.map_append, List.mem_append, not_or] at ha
    rw [h₂.other a ha.2, h₁.other a ha.1]

theorem Allocates.cell_eq {adds : List NewTimer} {q q' : TimerQueue} {a : ℕ}
    (hadds : Allocates adds q q') (ha : q.cell a ≠ .fresh) : q'.cell a = q.cell a := by
  apply hadds.other
  intro hmem
  rcases List.mem_map.mp hmem with ⟨new, hnew, rfl⟩
  exact ha (hadds.new new hnew).1

theorem addTimerInLoop_ends {out : List ℕ} {q : TimerQueue} {a : ℕ} {t : Timer}
    (hq : QueueInv (a :: out) q) (hlive : q.cell a = .live t) (hout : a ∉ out) :
    SafeEnds (fun q' => QueueInv out q' ∧ q'.cell = q.cell ∧ (q.Armed → q'.Armed))
      (q.addTimerInLoop clock a) := by
  have hinserted := hq.insert hlive hout
  unfold addTimerInLoop
  rw [insert_eq hlive]
  simp only [bind, Except.bind]
  cases hearly : q.earliest t.expiration_ with
  | false => exact ⟨hinserted, rfl, fun harmed => harmed.inserted hearly⟩
  | true =>
      have hcell : (q.inserted a t).cell a = .live t := hlive
      rw [deref_of_live hcell]
      refine (resetTimerfd_ends _ _).mono ?_
      rintro q' ⟨hsame, harmed⟩
      exact ⟨hinserted.of_same hsame, hsame.2,
        fun _ => armed_of_earliest hearly hsame harmed⟩

theorem addTimer_ends {out : List ℕ} {q : TimerQueue} (hq : QueueInv out q)
    (new : NewTimer) :
    SafeEnds (fun q' => QueueInv out q' ∧ Allocates [new] q q' ∧ (q.Armed → q'.Armed))
      (q.addTimer clock new) := by
  unfold addTimer
  split
  next hnew =>
    rcases hnew with ⟨hfresh, hbound⟩
    have hout : new.address ∉ out := by
      intro hmem
      rcases hq.outLive _ hmem with ⟨t, hlive⟩
      rw [hfresh] at hlive
      cases hlive
    refine (addTimerInLoop_ends (hq.allocate hfresh hbound) (setCell_self _ _ _)
      hout).mono ?_
    rintro q' ⟨hinv, hcell, harmed⟩
    refine ⟨hinv, ⟨by simp, ?_, ?_⟩, harmed⟩
    · intro new' hnew'
      rw [List.mem_singleton.mp hnew', hcell, setCell_self]
      exact ⟨hfresh, rfl⟩
    · intro a ha
      rw [hcell]
      exact setCell_other (by simpa using ha)
  next => exact TimerFault.noConfusion

theorem addTimers_ends {out : List ℕ} {q : TimerQueue} (hq : QueueInv out q)
    (adds : List NewTimer) :
    SafeEnds (fun q' => QueueInv out q' ∧ Allocates adds q q')
      (q.addTimers clock adds) := by
  induction adds generalizing q with
  | nil => exact ⟨hq, .nil⟩
  | cons new adds ih =>
      refine (addTimer_ends hq new).bind ?_
      rintro q₁ ⟨hinv, hnew, _⟩
      refine (ih hinv).mono ?_
      rintro q₂ ⟨hinv', hadds⟩
      exact ⟨hinv', hnew.append hadds⟩

theorem runExpired_ends {out : List ℕ} {q : TimerQueue} (hq : QueueInv out q)
    (callbacks : ℕ → List NewTimer) {expired : List Entry}
    (hexpired : ∀ it ∈ expired, it.second ∈ out) :
    SafeEnds (fun q' => QueueInv out q' ∧
        Allocates (expired.flatMap fun it => callbacks it.second) q q' ∧
        (expired = [] → q' = q))
      (q.runExpired clock callbacks expired) := by
  induction expired generalizing q with
  | nil => exact ⟨hq, .nil, fun _ => rfl⟩
  | cons it expired ih =>
      have hsplit := List.forall_mem_cons.mp hexpired
      rcases hq.outLive _ hsplit.1 with ⟨t, hlive⟩
      unfold runExpired
      rw [deref_of_live hlive]
      refine (addTimers_ends hq (callbacks it.second)).bind ?_
      rintro q₁ ⟨hinv, hadds⟩
      refine (ih hinv hsplit.2).mono ?_
      rintro q₂ ⟨hinv', hrest, _⟩
      exact ⟨hinv', hadds.append hrest, by simp⟩

/-- The timers of `out` go on if they repeat, and are deleted otherwise. -/
structure Retires (out : List ℕ) (q q' : TimerQueue) : Prop where
  repeating : ∀ a ∈ out, ∀ t, q.cell a = .live t → t.repeat_ = true →
    ∃ t', q'.cell a = .live t' ∧ t'.repeat_ = true
  oneShot : ∀ a ∈ out, ∀ t, q.cell a = .live t → t.repeat_ = false →
    q'.cell a = .freed
  other : ∀ a, a ∉ out → q'.cell a = q.cell a

theorem Retires.cons {out : List ℕ} {a : ℕ} {q q₁ q₂ : TimerQueue}
    (h₁ : Retires [a] q q₁) (h₂ : Retires out q₁ q₂) (ha : a ∉ out) :
    Retires (a :: out) q q₂ := by
  have hkeep : ∀ b ∈ out, q₁.cell b = q.cell b := by
    intro b hb
    apply h₁.other
    rintro hba
    exact ha (List.mem_singleton.mp hba ▸ hb)
  constructor
  · intro b hb t hlive hrepeat
    rcases List.mem_cons.mp hb with rfl | hb
    · rw [h₂.other b ha]
      exact h₁.repeating b (List.mem_singleton_self b) t hlive hrepeat
    · exact h₂.repeating b hb t (hkeep b hb ▸ hlive) hrepeat
  · intro b hb t hlive hrepeat
    rcases List.mem_cons.mp hb with rfl | hb
    · rw [h₂.other b ha]
      exact h₁.oneShot b (List.mem_singleton_self b) t hlive hrepeat
    · exact h₂.oneShot b hb t (hkeep b hb ▸ hlive) hrepeat
  · intro b hb
    rw [List.mem_cons, not_or] at hb
    rw [h₂.other b hb.2, h₁.other b (by simpa using hb.1)]

theorem addTime_ends (now : Timestamp) (delta : ℤ) :
    SafeEnds (fun _ => True) (addTime now delta) :=
  (int64_ends _).bind fun _ _ => trivial

theorem restart_ends (t : Timer) (now : Timestamp) :
    SafeEnds (fun t' => t'.repeat_ = t.repeat_) (t.restart now) := by
  unfold Timer.restart
  split
  · exact (addTime_ends _ _).bind fun _ _ => rfl
  · exact rfl

theorem rearm_ends {out : List ℕ} {q : TimerQueue} (hq : QueueInv out q) :
    SafeEnds (fun q' => SameTimers q q' ∧ q'.Armed) (q.rearm clock) := by
  unfold rearm
  cases hfirst : q.timers_.first with
  | none =>
      refine ⟨⟨rfl, rfl⟩, ?_⟩
      intro e he
      rw [hfirst] at he
      cases he
  | some it =>
      rcases hq.key it (SortedSet.first_eq_some.mp hfirst).1 with ⟨t, hlive, hkey⟩
      simp only [deref_of_live hlive, bind, Except.bind, hkey]
      refine (resetTimerfd_ends _ _).mono ?_
      rintro q' ⟨hsame, harmed⟩
      refine ⟨hsame, ?_⟩
      intro e he
      rw [hsame.1, hfirst, Option.some.injEq] at he
      rwa [← he]

theorem restartOrDelete_ends {out : List ℕ} {q : TimerQueue} {it : Entry}
    (hq : QueueInv (it.second :: out) q) (hout : it.second ∉ out) :
    SafeEnds (fun q' => QueueInv out q' ∧ Retires [it.second] q q')
      (q.restartOrDelete clock it) := by
  rcases hq.outLive _ List.mem_cons_self with ⟨t, hlive⟩
  have hother : ∀ cell a, a ∉ [it.second] → (q.setCell it.second cell).cell a = q.cell a :=
    fun cell a ha => setCell_other (by simpa using ha)
  have hsame : ∀ a ∈ [it.second], ∀ s, q.cell a = .live s → s = t := by
    intro a ha s hs
    rw [List.mem_singleton.mp ha, hlive, Cell.live.injEq] at hs
    exact hs.symm
  unfold restartOrDelete
  simp only [deref_of_live hlive, bind, Except.bind]
  cases hrepeat : t.repeat_ with
  | true =>
      refine (restart_ends t _).bind ?_
      intro t' ht'
      have hset : ((q.now clock).2.setCell it.second (.live t')).cell it.second =
          .live t' := setCell_self _ _ _
      have hmoved : QueueInv (it.second :: out) (q.now clock).2 :=
        hq.of_same ⟨rfl, rfl⟩
      have hinv : QueueInv (it.second :: out)
          ((q.now clock).2.setCell it.second (.live t')) := hmoved.setLive
      rw [insert_eq hset]
      refine ⟨hinv.insert hset hout, ?_, ?_, hother _⟩
      · intro a ha s _ _
        rw [List.mem_singleton.mp ha]
        exact ⟨t', hset, ht'.trans hrepeat⟩
      · intro a ha s hs hfalse
        rw [hsame a ha s hs, hrepeat] at hfalse
        cases hfalse
  | false =>
      refine ⟨hq.free hout, ?_, ?_, hother _⟩
      · intro a ha s hs htrue
        rw [hsame a ha s hs, hrepeat] at htrue
        cases htrue
      · intro a ha s _ _
        rw [List.mem_singleton.mp ha]
        exact setCell_self _ _ _

theorem resetEntry_ends {out : List ℕ} {q : TimerQueue} {it : Entry}
    (hq : QueueInv (it.second :: out) q) (hout : it.second ∉ out) :
    SafeEnds (fun q' => QueueInv out q' ∧ Retires [it.second] q q' ∧ q'.Armed)
      (q.resetEntry clock it) := by
  refine (restartOrDelete_ends hq hout).bind ?_
  rintro q₁ ⟨hinv, hretires⟩
  refine (rearm_ends hinv).mono ?_
  rintro q' ⟨hsame, harmed⟩
  refine ⟨hinv.of_same hsame, ?_, harmed⟩
  constructor
  · rw [hsame.2]
    exact hretires.repeating
  · rw [hsame.2]
    exact hretires.oneShot
  · rw [hsame.2]
    exact hretires.other

theorem reset_ends {q : TimerQueue} {expired : List Entry}
    (hq : QueueInv (expired.map Entry.second) q)
    (hnodup : (expired.map Entry.second).Nodup) :
    SafeEnds (fun q' => QueueInv [] q' ∧ Retires (expired.map Entry.second) q q' ∧
        (expired = [] → q' = q) ∧ (expired ≠ [] → q'.Armed))
      (q.reset clock expired) := by
  induction expired generalizing q with
  | nil =>
      exact ⟨hq, ⟨by simp, by simp, fun _ _ => rfl⟩, fun _ => rfl, fun h => absurd rfl h⟩
  | cons it expired ih =>
      rcases List.nodup_cons.mp hnodup with ⟨hout, hrest⟩
      refine (resetEntry_ends hq hout).bind ?_
      rintro q₁ ⟨hinv, hone, harmed⟩
      refine (ih hinv hrest).mono ?_
      rintro q₂ ⟨hinv', hretires, hlast, hrearmed⟩
      refine ⟨hinv', hone.cons hretires hout, by simp, ?_⟩
      intro _
      by_cases hend : expired = []
      · rwa [hlast hend]
      · exact hrearmed hend

/-- The entries that a call of `handleRead` takes out. -/
def due (clock : ℕ → Timestamp) (q : TimerQueue) : List Entry :=
  q.timers_.below ⟨clock q.readings, UINTPTR_MAX⟩

/-- What a call of `handleRead` does.  The timers that have expired run and
are set up again; a call that finds none leaves the descriptor alone. -/
structure Handled (clock : ℕ → Timestamp) (q : TimerQueue) (fired : Bool)
    (callbacks : ℕ → List NewTimer) (q' : TimerQueue) (output : List TimerEvent) :
    Prop where
  inv : QueueInv [] q'
  output_eq : output = events callbacks (q.due clock)
  cells : ∃ mid,
    Allocates ((q.due clock).flatMap fun it => callbacks it.second) q mid ∧
      Retires ((q.due clock).map Entry.second) mid q'
  idle : q.due clock = [] →
    q'.timers_ = q.timers_ ∧ q'.timerfd_ = if fired then none else q.timerfd_
  armed : q.due clock ≠ [] → q'.Armed

theorem handleRead_ends {q : TimerQueue} (hq : QueueInv [] q) (fired : Bool)
    (callbacks : ℕ → List NewTimer) :
    SafeEnds (fun r => Handled clock q fired callbacks r.1 r.2)
      (q.handleRead clock fired callbacks) := by
  have hread : QueueInv []
      { (q.now clock).2 with timerfd_ := if fired then none else q.timerfd_ } :=
    hq.of_same ⟨rfl, rfl⟩
  have hexpired := hread.getExpired (clock q.readings)
  have hnodup : ((q.due clock).map Entry.second).Nodup :=
    hread.nodup_expired (clock q.readings)
  refine (runExpired_ends hexpired callbacks
    fun it hit => List.mem_map_of_mem hit).bind ?_
  rintro mid ⟨hmid, hadds, hsame⟩
  refine (reset_ends hmid hnodup).bind ?_
  rintro q' ⟨hinv, hretires, hlast, hrearmed⟩
  have hcells : Allocates ((q.due clock).flatMap fun it => callbacks it.second) q mid :=
    ⟨hadds.nodup, hadds.new, hadds.other⟩
  refine ⟨hinv, rfl, ⟨mid, hcells, hretires⟩, ?_, hrearmed⟩
  intro hnone
  rw [hlast hnone, hsame hnone]
  exact ⟨SortedSet.eraseBelow_of_below_eq_nil hnone, rfl⟩

end TimerQueue

end MyFileServer
