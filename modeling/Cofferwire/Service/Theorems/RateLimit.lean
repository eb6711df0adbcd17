import Cofferwire.Service.RateLimit
import Cofferwire.Toy
import Mathlib.Data.List.Dedup

namespace Cofferwire.RateLimiter

-- A request at time `t` counts towards the budget at time `now`.
def Counts (w now t : UInt64) : Prop :=
  now.toNat < t.toNat + w.toNat

instance : DecidablePred (Counts w now) :=
  fun _ => inferInstanceAs (Decidable (_ < _))

theorem Counts.of_le (h : Counts w now' t) (hn : now ≤ now') : Counts w now t :=
  Nat.lt_of_le_of_lt (UInt64.le_iff_toNat_le.mp hn) h

section Admits

variable [Profile] {w now : UInt64}

theorem hasLeft_eq_some (h : t.toNat + w.toNat < 2 ^ 64) :
    hasLeft w now t = some (decide ¬Counts w now t) := by
  have ha : checkedAdd t w = some (t + w) := if_pos h
  have hs : t + w ≤ now ↔ ¬Counts w now t := by
    rw [UInt64.le_iff_toNat_le, ←checkedAdd_eq_some.mp ha, Counts, Nat.not_lt]
  simp only [hasLeft, ha, Option.isNone_some, Bool.false_eq_true, false_and, if_false, hs]

-- In a sorted window, all entries which have left are at the front.
theorem popFront_eq_some {entries : List UInt64} (ho : ∀ t ∈ entries, t.toNat + w.toNat < 2 ^ 64)
    (hs : entries.Pairwise (· ≤ ·)) :
    popFront w now entries = some (entries.filter (Counts w now)) := by
  induction entries
  case nil => rfl
  case cons t rest hi =>
    rw [List.forall_mem_cons] at ho
    rw [List.pairwise_cons] at hs
    rw [popFront, hasLeft_eq_some ho.left]
    by_cases hc : Counts w now t
    case neg =>
      rw [List.filter_cons_of_neg (by simpa using hc)]
      simpa [hc] using hi ho.right hs.right
    case pos =>
      have hr : ∀ t' ∈ rest, Counts w now t' := fun t' ht =>
        Nat.lt_of_lt_of_le hc (Nat.add_le_add_right (UInt64.le_iff_toNat_le.mp (hs.left t' ht)) _)
      rw [List.filter_cons_of_pos (by simpa using hc), List.filter_eq_self.mpr (by simpa using hr)]
      simp [hc]

end Admits

def tracked (limiter : RateLimiter κ) : List κ :=
  limiter.windows.map Window.key

theorem mem_tracked {limiter : RateLimiter κ} :
    a ∈ limiter.tracked ↔ ∃ window ∈ limiter.windows, window.key = a :=
  List.mem_map

-- The limiter cannot panic.
structure Fit (w : UInt64) (limiter : RateLimiter κ) : Prop where
  healthy    : limiter.poisoned = false
  windowSecs : limiter.windowSecs = w
  bounded    : ∀ window ∈ limiter.windows, ∀ t ∈ window.entries, t.toNat + w.toNat < 2 ^ 64

section SetEntries

variable [DecidableEq κ] {limiter : RateLimiter κ} {w : UInt64}

theorem Fit.setEntries (h : limiter.Fit w) (he : ∀ t ∈ entries, t.toNat + w.toNat < 2 ^ 64) :
    (limiter.setEntries a entries).Fit w where
  healthy    := h.healthy
  windowSecs := h.windowSecs
  bounded    := by
    intro window hw
    obtain ⟨old, ho, rfl⟩ := Table.mem_update.mp hw
    split
    case isTrue  => exact he
    case isFalse => exact h.bounded old ho

theorem lookup_setEntries_self :
    Table.lookup Window.key a (limiter.setEntries a entries).windows =
      (Table.lookup Window.key a limiter.windows).map ({ · with entries }) := by
  have hk (window : Window κ) : Window.key { window with entries } = window.key := rfl
  refine (Table.lookup_update hk).trans ?_
  cases hl : Table.lookup Window.key a limiter.windows
  case none => rfl
  case some => simp [Table.key_of_lookup hl]

theorem lookup_setEntries_of_ne (h : a ≠ b) :
    Table.lookup Window.key a (limiter.setEntries b entries).windows =
      Table.lookup Window.key a limiter.windows := by
  have hk (window : Window κ) : Window.key { window with entries } = window.key := rfl
  refine (Table.lookup_update hk).trans ?_
  cases hl : Table.lookup Window.key a limiter.windows
  case none => rfl
  case some => simp [Table.key_of_lookup hl, h]

end SetEntries

section Run

variable [Profile] [DecidableEq κ] (w : UInt64) (r k : Nat) (calls : Nat → κ × UInt64)

def key (n : Nat) : κ := (calls n).fst

def time (n : Nat) : UInt64 := (calls n).snd

-- The `n`-th call is admitted.
def Admitted (n : Nat) : Prop :=
  (machine w r k).output calls n = some true

instance : DecidablePred (Admitted w r k calls) :=
  fun _ => inferInstanceAs (Decidable (_ = _))

-- The times of all admitted calls under a key before the `n`-th one.
def times (n : Nat) (a : κ) : List UInt64 :=
  ((List.range n).filter fun i => Admitted w r k calls i ∧ key calls i = a).map (time calls)

variable {w r k calls}

theorem times_succ :
    times w r k calls (n + 1) a = times w r k calls n a ++
      if Admitted w r k calls n ∧ key calls n = a then [time calls n] else [] := by
  rw [times, List.range_succ, List.filter_append, List.map_append]
  by_cases h : Admitted w r k calls n ∧ key calls n = a
  case pos => rw [if_pos h, List.filter_cons_of_pos (by simpa using h)]; rfl
  case neg => rw [if_neg h, List.filter_cons_of_neg (by simpa using h)]; rfl

theorem times_succ_of_ne (h : key calls n ≠ a) :
    times w r k calls (n + 1) a = times w r k calls n a := by
  rw [times_succ, if_neg fun hn => h hn.right, List.append_nil]

theorem mem_times : t ∈ times w r k calls n a ↔
    ∃ i < n, Admitted w r k calls i ∧ key calls i = a ∧ time calls i = t := by
  simp only [times, List.mem_map, List.mem_filter, List.mem_range, decide_eq_true_eq, and_assoc]

-- A window contains all admitted calls which can still count.
structure Window.Valid (window : Window κ) (w : UInt64) (r k : Nat) (calls : Nat → κ × UInt64) (n : Nat) :
    Prop where
  sorted : window.entries.Pairwise (· ≤ ·)
  subset : ∀ t ∈ window.entries, t ∈ times w r k calls n window.key
  counts : ∀ now, (∀ i < n, time calls i ≤ now) →
    window.entries.filter (Counts w now) = (times w r k calls n window.key).filter (Counts w now)

structure Valid (limiter : RateLimiter κ) (w : UInt64) (r k : Nat) (calls : Nat → κ × UInt64) (n : Nat) :
    Prop where
  windowSecs     : limiter.windowSecs = w
  maxRequests    : limiter.maxRequests = r
  maxTrackedKeys : limiter.maxTrackedKeys = k
  healthy        : limiter.poisoned = false
  keyed          : Table.Keyed Window.key limiter.windows
  windows        : ∀ window ∈ limiter.windows, window.Valid w r k calls n
  tracked        : ∀ a, (∃ window ∈ limiter.windows, window.key = a) ↔ times w r k calls n a ≠ []

-- The times of calls do not decrease, and windows do not exceed the range of times.
structure Regular (w : UInt64) (calls : Nat → κ × UInt64) : Prop where
  monotone : ∀ i j, i ≤ j → time calls i ≤ time calls j
  bounded  : ∀ i, (time calls i).toNat + w.toNat < 2 ^ 64

-- A call under a tracked key is admitted as long as the budget is not exhausted.
inductive Verdict (limiter : RateLimiter κ) (a : κ) (now : UInt64) : Bool → RateLimiter κ → Prop
  | accept {window : Window κ} {entries : List UInt64} (hw : window ∈ limiter.windows) (ha : window.key = a)
    (he : window.entries.filter (Counts limiter.windowSecs now) = entries)
    (hl : entries.length < limiter.maxRequests) :
    Verdict limiter a now true (limiter.setEntries a (entries ++ [now]))
  | reject {window : Window κ} {entries : List UInt64} (hw : window ∈ limiter.windows) (ha : window.key = a)
    (he : window.entries.filter (Counts limiter.windowSecs now) = entries)
    (hl : ¬entries.length < limiter.maxRequests) :
    Verdict limiter a now false (limiter.setEntries a entries)
  | track (hn : ∀ window ∈ limiter.windows, window.key ≠ a)
    (hl : limiter.windows.length < limiter.maxTrackedKeys) :
    Verdict limiter a now true { limiter with windows := limiter.windows ++ [⟨a, [now]⟩] }
  | full (hn : ∀ window ∈ limiter.windows, window.key ≠ a)
    (hl : ¬limiter.windows.length < limiter.maxTrackedKeys) :
    Verdict limiter a now false limiter

theorem admits_verdict {limiter : RateLimiter κ} (hh : limiter.poisoned = false)
    (hs : ∀ window ∈ limiter.windows, window.entries.Pairwise (· ≤ ·))
    (ho : ∀ window ∈ limiter.windows, ∀ t ∈ window.entries,
      t.toNat + limiter.windowSecs.toNat < 2 ^ 64) (a : κ) (now : UInt64) :
    ∃ verdict, (limiter.admits a now).fst = some verdict ∧
      Verdict limiter a now verdict (limiter.admits a now).snd := by
  unfold admits
  rw [if_neg (by simp [hh])]
  split
  case h_1 window hl =>
    have hw := Table.mem_of_lookup hl
    rw [popFront_eq_some (ho _ hw) (hs _ hw)]
    dsimp only
    split
    case isTrue hr =>
      exact ⟨false, rfl, .reject hw (Table.key_of_lookup hl) rfl (Nat.not_lt.mpr hr)⟩
    case isFalse hr =>
      exact ⟨true, rfl, .accept hw (Table.key_of_lookup hl) rfl (Nat.not_le.mp hr)⟩
  case h_2 hl =>
    have hn := Table.lookup_eq_none.mp hl
    split
    case isTrue hk  => exact ⟨false, rfl, .full hn (Nat.not_lt.mpr hk)⟩
    case isFalse hk => exact ⟨true, rfl, .track hn (Nat.not_le.mp hk)⟩

theorem Window.Valid.succ {window : Window κ} (h : window.Valid w r k calls n)
    (ht : times w r k calls (n + 1) window.key = times w r k calls n window.key) :
    window.Valid w r k calls (n + 1) where
  sorted := h.sorted
  subset := ht ▸ h.subset
  counts now hn := ht ▸ h.counts now fun i hi => hn i (Nat.lt_succ_of_lt hi)

-- The entries which have left the window will never count again.
theorem Window.Valid.prune {window : Window κ} {l : List UInt64} (h : window.Valid w r k calls n)
    (ht : times w r k calls (n + 1) window.key = times w r k calls n window.key ++ l)
    (hs : (window.entries.filter (Counts w (time calls n)) ++ l).Pairwise (· ≤ ·)) :
    Window.Valid ⟨window.key, window.entries.filter (Counts w (time calls n)) ++ l⟩ w r k calls
      (n + 1) where
  sorted := hs
  subset := by
    intro t hm
    rw [ht]
    rcases List.mem_append.mp hm with hm | hm
    · exact List.mem_append_left _ (h.subset t (List.mem_of_mem_filter hm))
    · exact List.mem_append_right _ hm
  counts := by
    intro now hn
    have hc := h.counts now fun i hi => hn i (Nat.lt_succ_of_lt hi)
    rw [ht, List.filter_append, List.filter_append, ←hc, List.filter_filter]
    congr 1
    refine List.filter_congr fun t _ => ?_
    have := fun h : Counts w now t => h.of_le (hn n (Nat.lt_succ_self n))
    simpa using this

theorem valid_init : ((machine w r k).state calls 0).Valid w r k calls 0 where
  windowSecs     := rfl
  maxRequests    := rfl
  maxTrackedKeys := rfl
  healthy        := rfl
  keyed          := List.nodup_nil
  windows        := nofun
  tracked        := by simp [machine, Machine.state, new, times]

-- Only the window of the current key has changed.
theorem Valid.setEntries {limiter : RateLimiter κ} (h : limiter.Valid w r k calls n)
    (hw : window ∈ limiter.windows) (hk : window.key = key calls n)
    (hv : Window.Valid ⟨window.key, entries⟩ w r k calls (n + 1)) :
    (limiter.setEntries (key calls n) entries).Valid w r k calls (n + 1) := by
  refine { h with keyed := h.keyed.update fun _ => rfl, windows := ?windows, tracked := ?tracked }
  case windows =>
    intro window' hm
    obtain ⟨old, ho, rfl⟩ := Table.mem_update.mp hm
    split
    case isTrue he =>
      have he : old.key = window.key := hk ▸ of_decide_eq_true he
      exact he ▸ hv
    case isFalse he =>
      exact (h.windows old ho).succ (times_succ_of_ne fun hn => he (decide_eq_true hn.symm))
  case tracked =>
    intro a
    have hu : (∃ window' ∈ (limiter.setEntries (key calls n) entries).windows, window'.key = a) ↔
        ∃ window' ∈ limiter.windows, window'.key = a := by
      simp only [RateLimiter.setEntries, Table.mem_update]
      constructor
      · rintro ⟨_, ⟨old, ho, rfl⟩, ha⟩
        exact ⟨old, ho, by split at ha <;> exact ha⟩
      · rintro ⟨old, ho, ha⟩
        exact ⟨_, ⟨old, ho, rfl⟩, by split <;> exact ha⟩
    rw [hu, h.tracked a]
    by_cases ha : key calls n = a
    case neg => rw [times_succ_of_ne ha]
    case pos =>
      have ht := (h.tracked a).mp ⟨window, hw, hk.trans ha⟩
      exact iff_of_true ht (by rw [times_succ]; exact List.append_ne_nil_of_left_ne_nil ht _)

-- The window of a new key has only one entry.
theorem Valid.track {limiter : RateLimiter κ} (h : limiter.Valid w r k calls n)
    (hn : ∀ window ∈ limiter.windows, window.key ≠ key calls n)
    (ha : Admitted w r k calls n) :
    Valid { limiter with windows := limiter.windows ++ [⟨key calls n, [time calls n]⟩] } w r k calls
      (n + 1) := by
  have ht₀ : times w r k calls n (key calls n) = [] := by
    by_contra ht
    obtain ⟨window, hw, hk⟩ := (h.tracked _).mpr ht
    exact hn window hw hk
  have ht : times w r k calls (n + 1) (key calls n) = [time calls n] := by
    rw [times_succ, if_pos ⟨ha, rfl⟩, ht₀, List.nil_append]
  refine { h with keyed := h.keyed.append hn, windows := ?windows, tracked := ?tracked }
  case windows =>
    intro window' hm
    rcases List.mem_append.mp hm with hm | hm
    · exact (h.windows window' hm).succ (times_succ_of_ne (hn window' hm).symm)
    · cases List.mem_singleton.mp hm
      exact ⟨List.pairwise_singleton .., fun _ hm => ht ▸ hm, fun _ _ => by rw [ht]⟩
  case tracked =>
    intro a
    by_cases he : key calls n = a
    case pos =>
      subst he
      exact iff_of_true ⟨_, List.mem_append_right _ (.head _), rfl⟩ (by simp [ht])
    case neg =>
      rw [times_succ_of_ne he, ←h.tracked a]
      simp [or_and_right, exists_or, he]

section Step

variable (hr : Regular w calls) (h : ((machine w r k).state calls n).Valid w r k calls n)
include hr h

theorem Valid.output_verdict :
    ∃ verdict, (machine w r k).output calls n = some verdict ∧
      Verdict ((machine w r k).state calls n) (key calls n) (time calls n) verdict
        ((machine w r k).state calls (n + 1)) := by
  refine admits_verdict h.healthy (fun window hw => (h.windows window hw).sorted) ?_ _ _
  intro window hw t ht
  obtain ⟨i, _, _, _, rfl⟩ := mem_times.mp ((h.windows window hw).subset t ht)
  rw [h.windowSecs]
  exact hr.bounded i

theorem Valid.succ : ((machine w r k).state calls (n + 1)).Valid w r k calls (n + 1) := by
  obtain ⟨verdict, ho, hv⟩ := h.output_verdict hr
  generalize (machine w r k).state calls (n + 1) = limiter at hv
  have ht (a) : times w r k calls (n + 1) a = times w r k calls n a ++
      if verdict ∧ key calls n = a then [time calls n] else [] := by
    have ha : Admitted w r k calls n ↔ verdict = true := by rw [Admitted, ho, Option.some.injEq]
    simp only [times_succ, ha]
  cases hv
  case full hn hl =>
    have ht (a) : times w r k calls (n + 1) a = times w r k calls n a := by simp [ht]
    exact { h with
      windows := fun window hw => (h.windows window hw).succ (ht _)
      tracked := by simpa only [ht] using h.tracked }
  case track hn hl => exact h.track hn ho
  case reject window _ hw hk he hl =>
    subst he
    rw [h.windowSecs]
    refine h.setEntries hw hk ?_
    have hv := h.windows window hw
    have hp := hv.prune (l := []) (by simp [ht]) (by simpa using hv.sorted.filter _)
    rwa [List.append_nil] at hp
  case accept window _ hw hk he hl =>
    subst he
    rw [h.windowSecs]
    refine h.setEntries hw hk ?_
    have hv := h.windows window hw
    refine hv.prune (by simp [ht, hk]) ?_
    refine List.pairwise_append.mpr ⟨hv.sorted.filter _, List.pairwise_singleton .., ?_⟩
    intro t hm _ hn
    cases List.mem_singleton.mp hn
    obtain ⟨i, hi, _, _, rfl⟩ := mem_times.mp (hv.subset t (List.mem_of_mem_filter hm))
    exact hr.monotone i n (Nat.le_of_lt hi)

end Step

theorem state_valid (hr : Regular w calls) (n : Nat) :
    ((machine w r k).state calls n).Valid w r k calls n := by
  induction n
  case zero => exact valid_init
  case succ n hi => exact hi.succ hr

theorem output_of_tracked (hr : Regular w calls)
    (ht : key calls n ∈ ((machine w r k).state calls n).tracked) :
    (machine w r k).output calls n =
      some (decide ((times w r k calls n (key calls n)).countP (Counts w (time calls n)) < r)) := by
  have h : ((machine w r k).state calls n).Valid w r k calls n := state_valid hr n
  obtain ⟨window, hw, hk⟩ := mem_tracked.mp ht
  have hc {window'} (hw' : window' ∈ ((machine w r k).state calls n).windows)
      (hk : window'.key = key calls n) : (window'.entries.filter (Counts w (time calls n))).length =
      (times w r k calls n (key calls n)).countP (Counts w (time calls n)) := by
    rw [(h.windows window' hw').counts _ fun i hi => hr.monotone i n (Nat.le_of_lt hi), hk,
      List.countP_eq_length_filter]
  obtain ⟨verdict, ho, hv⟩ := h.output_verdict hr
  rw [ho]
  generalize (machine w r k).state calls (n + 1) = limiter at hv
  cases hv
  case track hn _ => exact absurd hk (hn window hw)
  case full hn _  => exact absurd hk (hn window hw)
  case accept hw hk he hl =>
    rw [←he, h.windowSecs, hc hw hk, h.maxRequests] at hl
    rw [decide_eq_true hl]
  case reject hw hk he hl =>
    rw [←he, h.windowSecs, hc hw hk, h.maxRequests] at hl
    rw [decide_eq_false hl]

theorem output_of_untracked (hr : Regular w calls)
    (ht : key calls n ∉ ((machine w r k).state calls n).tracked) :
    (machine w r k).output calls n =
      some (decide (((machine w r k).state calls n).tracked.length < k)) := by
  have h : ((machine w r k).state calls n).Valid w r k calls n := state_valid hr n
  obtain ⟨verdict, ho, hv⟩ := h.output_verdict hr
  rw [ho, tracked, List.length_map]
  generalize (machine w r k).state calls (n + 1) = limiter at hv
  cases hv
  case track hl => rw [h.maxTrackedKeys] at hl; rw [decide_eq_true hl]
  case full hl  => rw [h.maxTrackedKeys] at hl; rw [decide_eq_false hl]
  case accept hw hk _ _  => exact absurd (mem_tracked.mpr ⟨_, hw, hk⟩) ht
  case reject hw hk _ _ => exact absurd (mem_tracked.mpr ⟨_, hw, hk⟩) ht

-- The last admitted call in a period still sees all earlier ones.
theorem countP_times_le (hr : Regular w calls) (hm : 1 ≤ r) (a : κ) (start n : Nat) :
    (times w r k calls n a).countP (fun t => start ≤ t.toNat ∧ t.toNat < start + w.toNat) ≤ r := by
  induction n
  case zero => exact Nat.zero_le _
  case succ n hi =>
    rw [times_succ, List.countP_append]
    split
    case isFalse => exact hi
    case isTrue ha =>
      obtain ⟨ha, rfl⟩ := ha
      rw [List.countP_singleton]
      split
      case isFalse => exact hi
      case isTrue hp =>
        by_cases ht : key calls n ∈ ((machine w r k).state calls n).tracked
        case pos =>
          have hv := of_decide_eq_true (Option.some.inj ((output_of_tracked hr ht).symm.trans ha))
          have hl : (times w r k calls n (key calls n)).countP
              (fun t => start ≤ t.toNat ∧ t.toNat < start + w.toNat) ≤
              (times w r k calls n (key calls n)).countP (Counts w (time calls n)) := by
            refine List.countP_mono_left fun t _ ht => ?_
            have ht := of_decide_eq_true ht
            have hp := of_decide_eq_true hp
            exact decide_eq_true (show _ < _ by omega)
          omega
        case neg =>
          have hn : times w r k calls n (key calls n) = [] := by
            by_contra hn
            exact ht (mem_tracked.mpr (((state_valid hr n).tracked _).mpr hn))
          rw [hn]
          exact hm

section Isolation

theorem exists_popFront {entries : List UInt64} (ho : ∀ t ∈ entries, t.toNat + w.toNat < 2 ^ 64)
    (now : UInt64) : ∃ rest, popFront w now entries = some rest ∧ ∀ t ∈ rest, t ∈ entries := by
  induction entries
  case nil => exact ⟨[], rfl, fun _ h => h⟩
  case cons t entries hi =>
    rw [List.forall_mem_cons] at ho
    rw [popFront, hasLeft_eq_some ho.left]
    by_cases hc : Counts w now t
    case pos => exact ⟨t :: entries, by simp [hc], fun _ h => h⟩
    case neg =>
      obtain ⟨rest, hr, hs⟩ := hi ho.right
      exact ⟨rest, by simpa [hc] using hr, fun t ht => .tail _ (hs t ht)⟩

variable {limiter limiter' : RateLimiter κ} {now : UInt64}

-- The verdict on a tracked key and its next entries only depend on its own window.
theorem admits_of_lookup (hh : limiter.poisoned = false)
    (hl : Table.lookup Window.key a limiter.windows = some window)
    (hp : popFront limiter.windowSecs now window.entries = some rest) :
    limiter.admits a now = (some (decide (rest.length < limiter.maxRequests)), limiter.setEntries a
      (if rest.length < limiter.maxRequests then rest ++ [now] else rest)) := by
  simp only [admits, hh, Bool.false_eq_true, if_false, hl, hp, ge_iff_le, ←Nat.not_lt]
  split <;> simp_all

-- What a call leaves of a limiter from the perspective of other keys.
theorem Fit.admits (h : limiter.Fit w) (hn : now.toNat + w.toNat < 2 ^ 64) (b : κ) :
    (limiter.admits b now).snd.Fit w ∧ (limiter.admits b now).snd.maxRequests = limiter.maxRequests ∧
    ∀ a, a ≠ b → Table.lookup Window.key a (limiter.admits b now).snd.windows =
      Table.lookup Window.key a limiter.windows := by
  cases hl : Table.lookup Window.key b limiter.windows
  case some window =>
    obtain ⟨rest, hp, hs⟩ := exists_popFront (h.bounded window (Table.mem_of_lookup hl)) now
    rw [admits_of_lookup h.healthy hl (h.windowSecs ▸ hp)]
    have hb : ∀ t ∈ rest, t.toNat + w.toNat < 2 ^ 64 := fun t ht =>
      h.bounded window (Table.mem_of_lookup hl) t (hs t ht)
    refine ⟨h.setEntries ?_, rfl, fun a ha => lookup_setEntries_of_ne ha⟩
    split
    case isTrue  => exact List.forall_mem_append.mpr ⟨hb, List.forall_mem_singleton.mpr hn⟩
    case isFalse => exact hb
  case none =>
    simp only [RateLimiter.admits, h.healthy, Bool.false_eq_true, if_false, hl]
    split
    case isTrue => exact ⟨h, rfl, fun _ _ => rfl⟩
    case isFalse =>
      refine ⟨⟨rfl, h.windowSecs, ?_⟩, rfl, fun a ha => Table.lookup_append_of_ne (Ne.symm ha)⟩
      exact List.forall_mem_append.mpr ⟨h.bounded, by simpa using hn⟩

-- Both limiters treat a tracked key in the same way.
structure Agree (w : UInt64) (a : κ) (limiter limiter' : RateLimiter κ) : Prop where
  left        : limiter.Fit w
  right       : limiter'.Fit w
  maxRequests : limiter.maxRequests = limiter'.maxRequests
  window      : ∃ window, Table.lookup Window.key a limiter.windows = some window ∧
    Table.lookup Window.key a limiter'.windows = some window

theorem Agree.skip (h : Agree w a limiter limiter') (hn : now.toNat + w.toNat < 2 ^ 64) (hb : b ≠ a) :
    Agree w a (limiter.admits b now).snd limiter' := by
  obtain ⟨window, hl, hl'⟩ := h.window
  obtain ⟨hf, hm, ho⟩ := h.left.admits hn b
  exact ⟨hf, h.right, hm.trans h.maxRequests, window, (ho a hb.symm).trans hl, hl'⟩

theorem Agree.step (h : Agree w a limiter limiter') (hn : now.toNat + w.toNat < 2 ^ 64) :
    (limiter.admits a now).fst = (limiter'.admits a now).fst ∧
      Agree w a (limiter.admits a now).snd (limiter'.admits a now).snd := by
  obtain ⟨window, hl, hl'⟩ := h.window
  obtain ⟨hf, hm, _⟩ := h.left.admits hn a
  obtain ⟨hf', hm', _⟩ := h.right.admits hn a
  obtain ⟨rest, hp, _⟩ := exists_popFront (h.left.bounded window (Table.mem_of_lookup hl)) now
  have he := admits_of_lookup h.left.healthy hl (h.left.windowSecs ▸ hp)
  have he' := admits_of_lookup h.right.healthy hl' (h.right.windowSecs ▸ hp)
  refine ⟨by rw [he, he', h.maxRequests], hf, hf', (hm.trans h.maxRequests).trans hm'.symm, ?_⟩
  rw [he, he', h.maxRequests, lookup_setEntries_self, lookup_setEntries_self, hl, hl']
  exact ⟨_, rfl, rfl⟩

end Isolation

-- The limiter enforces its budget exactly, and each tracked key only depends on its own calls.
theorem rolling_budget_exact (w : UInt64) (r k : Nat) (hm : 1 ≤ r) (calls : Nat → κ × UInt64)
    (hr : Regular w calls) (n : Nat) :
    let limiter := (machine w r k).state calls n
    limiter.tracked.Nodup ∧
    (∀ a, a ∈ limiter.tracked ↔ times w r k calls n a ≠ []) ∧
    (key calls n ∈ limiter.tracked → (machine w r k).output calls n =
      some (decide ((times w r k calls n (key calls n)).countP (Counts w (time calls n)) < r))) ∧
    (key calls n ∉ limiter.tracked →
      (machine w r k).output calls n = some (decide (limiter.tracked.length < k))) ∧
    (∀ a start, (times w r k calls n a).countP
      (fun t => start ≤ t.toNat ∧ t.toNat < start + w.toNat) ≤ r) ∧
    (∀ a ∈ limiter.tracked, ∀ later : List (κ × UInt64),
      (∀ call ∈ later, call.snd.toNat + w.toNat < 2 ^ 64) →
      ((machine w r k).replies limiter later).filter (·.fst.fst = a) =
        (machine w r k).replies limiter (later.filter (·.fst = a))) := by
  have h : ((machine w r k).state calls n).Valid w r k calls n := state_valid hr n
  refine ⟨h.keyed, fun a => mem_tracked.trans (h.tracked a), output_of_tracked hr,
    output_of_untracked hr, fun a start => countP_times_le hr hm a start n, fun a ha later hb => ?_⟩
  refine Machine.filter_replies (p := fun call : κ × UInt64 => call.fst = a) (R := Agree w a)
    (fun call hc _ _ hp ha => ?_) (fun call hc _ _ hp ha => ?_) ?_
  · exact ha.skip (hb call hc) (by simpa using hp)
  · obtain rfl : call.fst = a := by simpa using hp
    exact ha.step (hb call hc)
  · have hf : ((machine w r k).state calls n).Fit w := by
      refine ⟨h.healthy, h.windowSecs, fun window hw t ht => ?_⟩
      obtain ⟨i, _, _, _, rfl⟩ := mem_times.mp ((h.windows window hw).subset t ht)
      exact hr.bounded i
    obtain ⟨window, hw, hk⟩ := mem_tracked.mp ha
    have hl := (Table.lookup_eq_some h.keyed).mpr ⟨hw, hk⟩
    exact ⟨hf, hf, rfl, window, hl, hl⟩

section Capacity

variable (w : UInt64) (r k : Nat) (calls : Nat → κ × UInt64) (n : Nat)

-- The distinct keys which have had an admitted call before the `n`-th one, and those of them which have
-- had one that still counts.
def admittedKeys : List κ :=
  (((List.range n).filter (Admitted w r k calls)).map (key calls)).dedup

def activeKeys : List κ :=
  (((List.range n).filter fun i => Admitted w r k calls i ∧ Counts w (time calls n) (time calls i)).map
    (key calls)).dedup

-- No call under the key of the `n`-th one counts any more.
def Idle : Prop :=
  ∀ t ∈ times w r k calls n (key calls n), ¬Counts w (time calls n) t

-- Keys which have been idle for a whole window make room for others.
def CapacityRecovers : Prop :=
  (activeKeys w r k calls n).length < k → Idle w r k calls n → Admitted w r k calls n

variable {w r k calls n}

theorem mem_admittedKeys : a ∈ admittedKeys w r k calls n ↔ times w r k calls n a ≠ [] := by
  simp only [admittedKeys, List.mem_dedup, List.mem_map, List.mem_filter, List.mem_range,
    decide_eq_true_eq, List.ne_nil_iff_exists_cons]
  constructor
  · rintro ⟨i, ⟨hi, ha⟩, hk⟩
    exact List.exists_cons_of_ne_nil (List.ne_nil_of_mem (mem_times.mpr ⟨i, hi, ha, hk, rfl⟩))
  · rintro ⟨t, rest, ht⟩
    have hm : t ∈ times w r k calls n a := ht ▸ .head _
    obtain ⟨i, hi, ha, hk, _⟩ := mem_times.mp hm
    exact ⟨i, ⟨hi, ha⟩, hk⟩

-- The keys which have ever been admitted are those which are tracked.
theorem tracked_perm (hr : Regular w calls) :
    ((machine w r k).state calls n).tracked.Perm (admittedKeys w r k calls n) := by
  have h : ((machine w r k).state calls n).Valid w r k calls n := state_valid hr n
  refine (List.perm_ext_iff_of_nodup h.keyed (List.nodup_dedup _)).mpr fun a => ?_
  exact (mem_tracked.trans (h.tracked a)).trans mem_admittedKeys.symm

end Capacity

-- The room for a key is never released. An idle key is only admitted if it has been admitted before or
-- if there is room for another one.
theorem capacity_is_never_released (w : UInt64) (r k : Nat) (hm : 1 ≤ r) (calls : Nat → κ × UInt64)
    (hr : Regular w calls) (n : Nat) (hi : Idle w r k calls n) :
    Admitted w r k calls n ↔
      key calls n ∈ admittedKeys w r k calls n ∨ (admittedKeys w r k calls n).length < k := by
  have hp : ((machine w r k).state calls n).tracked.Perm (admittedKeys w r k calls n) := tracked_perm hr
  rw [Admitted, ←hp.mem_iff, ←hp.length_eq]
  by_cases ht : key calls n ∈ ((machine w r k).state calls n).tracked
  case neg =>
    rw [output_of_untracked hr ht]
    simp [ht]
  case pos =>
    have hc : (times w r k calls n (key calls n)).countP (Counts w (time calls n)) = 0 :=
      List.countP_eq_zero.mpr fun t hm => by simpa using hi t hm
    rw [output_of_tracked hr ht, hc]
    simp only [ht, true_or, iff_true]
    exact congrArg some (decide_eq_true hm)

end Run

-- The room for a single key is taken by the first call.
namespace Exhausted

def calls : Nat → Bool × UInt64
  | 0 => (false, 1000)
  | _ => (true, 2000)

theorem regular : Regular 60 calls where
  monotone := by
    rintro (_ | i) (_ | j) h
    · exact UInt64.le_refl _
    · exact (by decide : (1000 : UInt64) ≤ 2000)
    · omega
    · exact UInt64.le_refl _
  bounded := by
    rintro (_ | i)
    · exact (by decide : 1000 + 60 < 2 ^ 64)
    · exact (by decide : 2000 + 60 < 2 ^ 64)

theorem second_key_idle [Profile] : Idle 60 1 1 calls 1 := by
  have ht : times 60 1 1 calls 1 (key calls 1) = [] := rfl
  intro t hm
  rw [ht] at hm
  cases hm

theorem idle_key_keeps_its_room : ¬∃ _ : Profile, CapacityRecovers 60 1 1 calls 1 := by
  rintro ⟨profile, h⟩
  have ha := h (by obtain ⟨_ | _⟩ := profile <;> decide +kernel) second_key_idle
  revert ha
  obtain ⟨_ | _⟩ := profile <;> decide +kernel

attribute [local instance] Toy.profile

-- The second key finds no room, although the first one has been idle.
theorem second_key_rejected : Idle 60 1 1 calls 1 ∧ ¬Admitted 60 1 1 calls 1 := by
  refine ⟨second_key_idle, fun ha => ?_⟩
  have h := (capacity_is_never_released 60 1 1 (by decide) calls regular 1 second_key_idle).mp ha
  revert h
  decide +kernel

end Exhausted

-- There is room for a single key, which has a single request per window.
namespace Renewed

def calls : Nat → Bool × UInt64
  | 0 => (false, 1000)
  | 1 => (true, 1010)
  | 2 => (false, 1059)
  | _ => (false, 1060)

theorem time_le_succ (n : Nat) : time calls n ≤ time calls (n + 1) := by
  obtain _ | _ | _ | n := n
  · exact (by decide : (1000 : UInt64) ≤ 1010)
  · exact (by decide : (1010 : UInt64) ≤ 1059)
  · exact (by decide : (1059 : UInt64) ≤ 1060)
  · exact UInt64.le_refl _

theorem regular : Regular 60 calls where
  monotone := by
    intro i j h
    induction h
    case refl         => exact UInt64.le_refl _
    case step n hl hi => exact UInt64.le_trans hi (time_le_succ n)
  bounded := by
    rintro (_ | _ | _ | i)
    · exact (by decide : 1000 + 60 < 2 ^ 64)
    · exact (by decide : 1010 + 60 < 2 ^ 64)
    · exact (by decide : 1059 + 60 < 2 ^ 64)
    · exact (by decide : 1060 + 60 < 2 ^ 64)

attribute [local instance] Toy.profile

-- The second key finds no room. The first one is rejected up to the end of its window.
theorem budget_renewed_after_window :
    (machine 60 1 1).output calls 1 = some false ∧
    (machine 60 1 1).output calls 2 = some false ∧
    (machine 60 1 1).output calls 3 = some true := by
  have h := rolling_budget_exact 60 1 1 (by decide) calls regular
  obtain ⟨_, _, _, hu, _⟩ := h 1
  obtain ⟨_, _, ht, _⟩ := h 2
  obtain ⟨_, _, ht', _⟩ := h 3
  refine ⟨(hu (by decide)).trans ?_, (ht (by decide)).trans ?_, (ht' (by decide)).trans ?_⟩
  all_goals decide +kernel

end Renewed
end Cofferwire.RateLimiter
