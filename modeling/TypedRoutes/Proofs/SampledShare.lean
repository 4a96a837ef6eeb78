import Mathlib.Algebra.Order.Round
import Mathlib.Data.Int.CardIntervalMod
import Mathlib.Data.Rat.Floor
import Mathlib.Tactic.FieldSimp
import Mathlib.Tactic.Linarith
import TypedRoutes.Settings.Sampling

/-!
# The share that sampling keeps

A sampler in sampled mode never drops a warning, an error or a span.  Of the other events it keeps
those whose position is a multiple of its interval, where positions are counted by a 64-bit word.
The module counts them, and compares the count with the rate whose rounded reciprocal the interval
is.
-/

namespace TypedRoutes

/-- An event that is no span and less severe than a warning; in sampled mode these are counted. -/
def LogEvent.isCounted (e : LogEvent) : Bool :=
  !(e.level.isSevere || e.isSpan)

namespace Sampler

variable {s : Sampler} {e : LogEvent} {events : List LogEvent} {n : Nat} {r : ℚ}

/-- A sampler in sampled mode that has counted nothing yet. -/
structure IsNew (s : Sampler) : Prop where
  mode : s.mode = .sampled
  count : s.count = 0

/-! ## Runs of a sampler -/

/-- The sampler after several events. -/
def after (s : Sampler) (events : List LogEvent) : Sampler :=
  events.foldl (fun s e => (s.offer e).2) s

/-- Which of the counted events are kept, in order. -/
def keptCounted (s : Sampler) (events : List LogEvent) : List Bool :=
  ((events.zip (s.offerAll events)).filter fun offered => offered.1.isCounted).map Prod.snd

/-- How many of the first counted events are kept. -/
def keptAmong (s : Sampler) (events : List LogEvent) (n : Nat) : Nat :=
  ((s.keptCounted events).take n).count true

/-- Whether the counted event at a position is kept. -/
def keeps (s : Sampler) (position : Nat) : Bool :=
  0 < s.interval && position % s.interval == 0

theorem offer_of_not_counted
    (hmode : s.mode = .sampled) (he : e.isCounted = false) : s.offer e = (true, s) := by
  have hpasses : (e.level.isSevere || e.isSpan) = true := by
    rwa [LogEvent.isCounted, Bool.not_eq_false'] at he
  rw [offer, hmode]
  simp [hpasses]

theorem offer_of_counted
    (hmode : s.mode = .sampled) (he : e.isCounted = true) :
    s.offer e = (s.keeps s.count, { s with count := (s.count + 1) % 2 ^ 64 }) := by
  have hcounted : (e.level.isSevere || e.isSpan) = false := by simpa [LogEvent.isCounted] using he
  rw [offer, hmode]
  simp [hcounted, keeps]

theorem mode_offer (s : Sampler) (e : LogEvent) : (s.offer e).2.mode = s.mode := by
  unfold offer
  split
  · rfl
  · rfl
  · split <;> rfl

theorem mode_after (s : Sampler) (events : List LogEvent) : (s.after events).mode = s.mode := by
  induction events generalizing s with
  | nil => rfl
  | cons e rest ih => exact (ih (s.offer e).2).trans (s.mode_offer e)

theorem after_concat (s : Sampler) (events : List LogEvent) (e : LogEvent) :
    s.after (events ++ [e]) = ((s.after events).offer e).2 := by
  simp [after]

theorem offerAll_append (s : Sampler) (events others : List LogEvent) :
    s.offerAll (events ++ others) = s.offerAll events ++ (s.after events).offerAll others := by
  induction events generalizing s with
  | nil => rfl
  | cons e rest ih => exact congrArg ((s.offer e).1 :: ·) (ih (s.offer e).2)

theorem keptCounted_cons_of_not_counted
    (hmode : s.mode = .sampled) (he : e.isCounted = false) (rest : List LogEvent) :
    s.keptCounted (e :: rest) = s.keptCounted rest := by
  simp [keptCounted, offerAll, offer_of_not_counted hmode he, he]

theorem keptCounted_cons_of_counted
    (hmode : s.mode = .sampled) (he : e.isCounted = true) (rest : List LogEvent) :
    s.keptCounted (e :: rest) =
      s.keeps s.count :: keptCounted { s with count := (s.count + 1) % 2 ^ 64 } rest := by
  simp [keptCounted, offerAll, offer_of_counted hmode he, he]

/-- A run decides about the counted events by their positions, modulo the word size. -/
theorem keptCounted_eq
    (hmode : s.mode = .sampled) (hcount : s.count < 2 ^ 64) (events : List LogEvent) :
    s.keptCounted events = (List.range (events.countP (·.isCounted))).map fun k =>
      s.keeps ((s.count + k) % 2 ^ 64) := by
  induction events generalizing s with
  | nil => rfl
  | cons e rest ih =>
      cases he : e.isCounted with
      | false =>
          rw [keptCounted_cons_of_not_counted hmode he, ih hmode hcount,
            List.countP_cons_of_neg (by simp [he])]
      | true =>
          have hrest := @ih { s with count := (s.count + 1) % 2 ^ 64 } hmode
            (Nat.mod_lt _ (by norm_num))
          rw [keptCounted_cons_of_counted hmode he, hrest,
            List.countP_cons_of_pos (by simp [he]), List.range_succ_eq_map, List.map_cons,
            List.map_map]
          refine List.cons_eq_cons.mpr ⟨?_, List.map_congr_left ?_⟩
          · rw [Nat.add_zero, Nat.mod_eq_of_lt hcount]
          · intro k _
            have hposition : s.count + 1 + k = s.count + (k + 1) := by omega
            simp only [Function.comp_apply, keeps, Nat.mod_add_mod, hposition, Nat.succ_eq_add_one]

/-! ## Counting multiples -/

/-- The number of multiples below a bound. -/
theorem count_multiples {i : Nat} (hi : 0 < i) (n : Nat) :
    Nat.count (fun k => k % i = 0) n = ⌈(n / i : ℚ)⌉₊ := by
  have hceil := Nat.count_modEq_card_eq_ceil n hi 0
  have hnonneg : (0 : ℚ) ≤ n / i := by positivity
  rw [Nat.zero_mod, Nat.cast_zero, sub_zero, ← Int.natCast_ceil_eq_ceil hnonneg] at hceil
  exact_mod_cast hceil

theorem count_periodic {p : Nat → Prop} [DecidablePred p] {w : Nat}
    (hp : ∀ k, p (w + k) ↔ p k) (q m : Nat) :
    Nat.count p (q * w + m) = q * Nat.count p w + Nat.count p m := by
  induction q with
  | zero => simp
  | succ q ih =>
      have hsplit : (q + 1) * w + m = w + (q * w + m) := by ring
      have hshift : Nat.count (fun k => p (w + k)) (q * w + m) = Nat.count p (q * w + m) := by
        simp only [hp]
      rw [hsplit, Nat.count_add, hshift, ih]
      ring

theorem countP_range (p : Nat → Bool) (n : Nat) :
    (List.range n).countP p = Nat.count (fun k => p k = true) n := by
  induction n with
  | zero => rfl
  | succ n ih => rw [List.range_succ, List.countP_append, List.countP_singleton, ih, Nat.count_succ]

/-- Kept events are counted by their positions. -/
theorem keptAmong_eq_count
    (hs : s.IsNew) (hn : n ≤ events.countP (·.isCounted)) :
    s.keptAmong events n = Nat.count (fun k => s.keeps (k % 2 ^ 64) = true) n := by
  have hcount : s.count < 2 ^ 64 := by
    rw [hs.count]
    norm_num
  rw [keptAmong, keptCounted_eq hs.mode hcount, ← List.map_take, List.take_range,
    Nat.min_eq_left hn, List.count_eq_countP, List.countP_map, countP_range, hs.count]
  simp

/-- Positions start over after each word. -/
theorem keptAmong_eq
    (hs : s.IsNew) (hinterval : 0 < s.interval) (hn : n ≤ events.countP (·.isCounted)) :
    s.keptAmong events n = n / 2 ^ 64 * ⌈(2 ^ 64 / s.interval : ℚ)⌉₊ +
      ⌈((n % 2 ^ 64 : ℕ) / s.interval : ℚ)⌉₊ := by
  have hword : ∀ m ≤ 2 ^ 64, Nat.count (fun k => s.keeps (k % 2 ^ 64) = true) m =
      ⌈(m / s.interval : ℚ)⌉₊ := by
    intro m hm
    rw [← count_multiples hinterval, Nat.count_eq_card_filter_range,
      Nat.count_eq_card_filter_range]
    refine congrArg Finset.card (Finset.filter_congr fun k hk => ?_)
    have hsmall : k < 2 ^ 64 := (Finset.mem_range.mp hk).trans_le hm
    rw [Nat.mod_eq_of_lt hsmall]
    simp [keeps, hinterval]
  rw [keptAmong_eq_count hs hn]
  conv_lhs => rw [← Nat.div_add_mod' n (2 ^ 64)]
  rw [count_periodic (by simp), hword _ le_rfl, hword _ (Nat.mod_lt _ (by norm_num)).le]
  push_cast
  rfl

/-! ## The interval of a rate -/

/-- The sampler in sampled mode for a rate, with an interval that is computed exactly. -/
def ofShare (r : ℚ) : Sampler :=
  ofFraction .sampled r.num.toNat r.den

theorem isNew_ofShare (r : ℚ) : (ofShare r).IsNew :=
  ⟨rfl, rfl⟩

/-- The interval is the rounded reciprocal of the rate, as far as it is a 64-bit word. -/
theorem interval_ofShare (hr : 0 < r) :
    ((ofShare r).interval : ℤ) = min (round (1 / r)) (2 ^ 64 - 1) := by
  have hnum : 0 < r.num := Rat.num_pos.mpr hr
  have hden : (0 : ℚ) < r.den := by exact_mod_cast r.den_pos
  obtain ⟨p, hp⟩ := Int.eq_ofNat_of_zero_le hnum.le
  have hpos : (0 : ℚ) < p := by exact_mod_cast hp ▸ hnum
  have hrate : r = (p : ℚ) / (r.den : ℚ) := by
    rw [← Int.cast_natCast, ← hp, Rat.num_div_den]
  have hhalf : 1 / r + 1 / 2 = ((2 * r.den + p : ℕ) : ℚ) / ((2 * p : ℕ) : ℚ) := by
    nth_rewrite 1 [hrate]
    push_cast
    field_simp
  have hinterval : (ofShare r).interval = min ((2 * r.den + p) / (2 * p)) (2 ^ 64 - 1) := by
    rw [ofShare, ofFraction, reciprocal, hp, Int.toNat_natCast]
    rfl
  rw [round_eq, hhalf, Rat.floor_natCast_div_natCast, hinterval]
  push_cast
  norm_num

theorem one_le_round {x : ℚ} (h : 1 ≤ x) : 1 ≤ round x := by
  rw [round_eq, Int.le_floor]
  push_cast
  linarith

/-- Rounding takes at most a third off a number from one on. -/
theorem two_thirds_le_round {x : ℚ} (h : 1 ≤ x) : 2 / 3 * x ≤ round x := by
  have hclose : x - 1 / 2 ≤ round x := by
    have habs := (abs_le.mp (abs_sub_round x)).2
    linarith
  have hone : (1 : ℚ) ≤ round x := by exact_mod_cast one_le_round h
  rcases le_total x (3 / 2) with hx | hx <;> linarith

theorem interval_pos (hr : 0 < r) (h : r ≤ 1) : 0 < (ofShare r).interval := by
  have hone := one_le_round ((one_le_div hr).mpr h)
  have hinterval := interval_ofShare hr
  omega

/-- The quotient by the interval exceeds the share by no more than a half, unless the interval is
the greatest word and there are fewer events than that. -/
theorem div_interval_le (hr : 0 < r) (h : r ≤ 1) (hn : n < 2 ^ 64) :
    (n / (ofShare r).interval : ℚ) ≤ 3 / 2 * r * n ∨ n ≤ (ofShare r).interval := by
  have hinterval := interval_ofShare hr
  rcases le_total (round (1 / r)) (2 ^ 64 - 1) with hfits | hcapped
  · left
    rw [min_eq_left hfits] at hinterval
    have hthird : 2 / 3 * (1 / r) ≤ (ofShare r).interval := by
      have hround := two_thirds_le_round ((one_le_div hr).mpr h)
      rwa [← hinterval, Int.cast_natCast] at hround
    have hpos : (0 : ℚ) < (ofShare r).interval := by exact_mod_cast interval_pos hr h
    rw [div_le_iff₀ hpos]
    calc (n : ℚ) = 3 / 2 * r * n * (2 / 3 * (1 / r)) := by field_simp
      _ ≤ 3 / 2 * r * n * (ofShare r).interval := by gcongr
  · right
    rw [min_eq_right hcapped] at hinterval
    omega

/-! ## The kept share -/

theorem keptAmong_of_no_interval
    (hs : s.IsNew) (hinterval : s.interval = 0) (hn : n ≤ events.countP (·.isCounted)) :
    s.keptAmong events n = 0 := by
  rw [keptAmong_eq_count hs hn, Nat.count_iff_forall_not]
  simp [keeps, hinterval]

/-- The first counted event is kept. -/
theorem one_le_keptAmong
    (hs : s.IsNew) (hinterval : 0 < s.interval) (hn : n ≤ events.countP (·.isCounted))
    (hpos : 0 < n) : 1 ≤ s.keptAmong events n := by
  have hfirst : Nat.count (fun k => s.keeps (k % 2 ^ 64) = true) 1 = 1 := by
    simp [Nat.count_succ, keeps, hinterval]
  rw [keptAmong_eq_count hs hn, ← hfirst]
  exact Nat.count_monotone _ hpos

theorem keptAmong_of_lt
    (hs : s.IsNew) (hinterval : 0 < s.interval) (hn : n ≤ events.countP (·.isCounted))
    (hword : n < 2 ^ 64) : s.keptAmong events n = ⌈(n / s.interval : ℚ)⌉₊ := by
  rw [keptAmong_eq hs hinterval hn, Nat.div_eq_of_lt hword, Nat.mod_eq_of_lt hword]
  simp

theorem keptAmong_le_div
    (hs : s.IsNew) (hinterval : 0 < s.interval) (hn : n ≤ events.countP (·.isCounted))
    (hword : n < 2 ^ 64) : (s.keptAmong events n : ℚ) ≤ n / s.interval + 1 := by
  rw [keptAmong_of_lt hs hinterval hn hword]
  exact (Nat.ceil_lt_add_one (by positivity)).le

theorem keptAmong_le_share
    (hr : 0 < r) (hle : r ≤ 1) (hn : n ≤ events.countP (·.isCounted)) (hword : n < 2 ^ 64)
    (hup : 1 / r ≤ (ofShare r).interval) :
    ((ofShare r).keptAmong events n : ℚ) ≤ r * n + 1 := by
  have hinterval := interval_pos hr hle
  have hpos : (0 : ℚ) < (ofShare r).interval := by exact_mod_cast hinterval
  have hshare : (n / (ofShare r).interval : ℚ) ≤ r * n := by
    rw [div_le_iff₀ hpos]
    calc (n : ℚ) = r * n * (1 / r) := by field_simp
      _ ≤ r * n * (ofShare r).interval := by gcongr
  have hkept := keptAmong_le_div (isNew_ofShare r) hinterval hn hword
  linarith

theorem keptAmong_le_share_and_half
    (hr : 0 < r) (hle : r ≤ 1) (hn : n ≤ events.countP (·.isCounted)) (hword : n < 2 ^ 64) :
    ((ofShare r).keptAmong events n : ℚ) ≤ 3 / 2 * r * n + 1 := by
  have hinterval := interval_pos hr hle
  rcases div_interval_le hr hle hword with hshare | hfew
  · have hkept := keptAmong_le_div (isNew_ofShare r) hinterval hn hword
    linarith
  · have hpos : (0 : ℚ) < (ofShare r).interval := by exact_mod_cast hinterval
    have hquotient : (n / (ofShare r).interval : ℚ) ≤ (1 : ℕ) := by
      rw [div_le_iff₀ hpos, Nat.cast_one, one_mul]
      exact_mod_cast hfew
    have hone : ((ofShare r).keptAmong events n : ℚ) ≤ 1 := by
      rw [keptAmong_of_lt (isNew_ofShare r) hinterval hn hword]
      exact_mod_cast Nat.ceil_le.mpr hquotient
    have hnonneg : 0 ≤ 3 / 2 * r * n := by positivity
    linarith

/-- Sampling keeps the share that its interval stands for.  For a rate between zero and one, every
warning, every error and every span is kept and leaves the sampler as it was.  For the rate zero no
other event is kept.  For any other rate the interval is the rounded reciprocal, and the kept ones
among the first counted events are as many as the multiples of the interval below their number,
where the positions start over after each 64-bit word.  That is at least one, and for fewer events
than there are words it is at most the quotient by the interval and one more; it is at most the
share and one more where the reciprocal is not rounded down, and half as much again and one more in
any case. -/
theorem kept_share_follows_interval (hnonneg : 0 ≤ r) (hle : r ≤ 1) (events : List LogEvent) :
    (∀ before e rest, events = before ++ e :: rest →
      e.level.isSevere = true ∨ e.isSpan = true →
        (ofShare r).offerAll events =
          (ofShare r).offerAll before ++ true :: ((ofShare r).after before).offerAll rest ∧
        (ofShare r).after (before ++ [e]) = (ofShare r).after before) ∧
    (r = 0 → ∀ n ≤ events.countP (·.isCounted), (ofShare r).keptAmong events n = 0) ∧
    (0 < r →
      ((ofShare r).interval : ℤ) = min (round (1 / r)) (2 ^ 64 - 1) ∧
      ∀ n ≤ events.countP (·.isCounted),
        (ofShare r).keptAmong events n =
          n / 2 ^ 64 * ⌈(2 ^ 64 / (ofShare r).interval : ℚ)⌉₊ +
            ⌈((n % 2 ^ 64 : ℕ) / (ofShare r).interval : ℚ)⌉₊ ∧
        (0 < n → 1 ≤ (ofShare r).keptAmong events n) ∧
        (n < 2 ^ 64 →
          ((ofShare r).keptAmong events n : ℚ) ≤ n / (ofShare r).interval + 1 ∧
          (1 / r ≤ (ofShare r).interval → ((ofShare r).keptAmong events n : ℚ) ≤ r * n + 1) ∧
          ((ofShare r).keptAmong events n : ℚ) ≤ 3 / 2 * r * n + 1)) := by
  refine ⟨?_, ?_, ?_⟩
  · rintro before e rest rfl hpasses
    have he : e.isCounted = false := by
      rw [LogEvent.isCounted, Bool.not_eq_false', Bool.or_eq_true]
      exact hpasses
    have hoffer := offer_of_not_counted ((ofShare r).mode_after before) he
    rw [offerAll_append, after_concat, hoffer, offerAll, hoffer]
    exact ⟨rfl, rfl⟩
  · rintro rfl n hn
    exact keptAmong_of_no_interval (isNew_ofShare 0) rfl hn
  · intro hr
    have hnew := isNew_ofShare r
    have hinterval := interval_pos hr hle
    refine ⟨interval_ofShare hr, fun n hn => ⟨keptAmong_eq hnew hinterval hn,
      one_le_keptAmong hnew hinterval hn, fun hword => ⟨?_, ?_, ?_⟩⟩⟩
    · exact keptAmong_le_div hnew hinterval hn hword
    · exact keptAmong_le_share hr hle hn hword
    · exact keptAmong_le_share_and_half hr hle hn hword

/-- Of three counted events, with a warning and a span between them, a rate of two fifths keeps the
first: the interval is three, since two and a half is rounded up. -/
theorem kept_share_follows_interval_two_fifths :
    (ofShare (2 / 5)).interval = 3 ∧
      (ofShare (2 / 5)).keptAmong
        [.event .info, .event .warn, .event .debug, .span .info, .event .info] 3 = 1 := by
  obtain ⟨-, -, hkept⟩ := kept_share_follows_interval (r := 2 / 5) (by norm_num) (by norm_num)
    [.event .info, .event .warn, .event .debug, .span .info, .event .info]
  obtain ⟨hinterval, hcounted⟩ := hkept (by norm_num)
  obtain ⟨hcount, -, -⟩ := hcounted 3 (by decide)
  have hround : round (1 / (2 / 5) : ℚ) = 3 := by norm_num [round_eq]
  have hthree : (ofShare (2 / 5)).interval = 3 := by
    rw [hround, min_eq_left (by norm_num)] at hinterval
    exact_mod_cast hinterval
  refine ⟨hthree, ?_⟩
  rw [hcount, hthree]
  norm_num

/-- The share and one more can be exceeded.  A rate of seven tenths keeps four of four events, as
its reciprocal is rounded down to one.  A rate of a third, whose reciprocal is exact, keeps too many
as soon as the positions have started over. -/
theorem kept_events_exceed_share :
    ((ofShare (7 / 10)).keptAmong (List.replicate 4 (.event .info)) 4 = 4 ∧
      ¬(4 : ℚ) ≤ 7 / 10 * 4 + 1) ∧
    (ofShare (1 / 3)).keptAmong (List.replicate (2 ^ 65) (.event .info)) (2 ^ 65) =
        12297829382473034412 ∧
      ¬(12297829382473034412 : ℚ) ≤ 1 / 3 * 2 ^ 65 + 1 := by
  refine ⟨⟨by decide +kernel, by norm_num⟩, ?_, by norm_num⟩
  have hall : ∀ n, n ≤ (List.replicate n (LogEvent.event .info)).countP (·.isCounted) := by
    intro n
    rw [List.countP_replicate, if_pos (by decide)]
  have hthree : (ofShare (1 / 3)).interval = 3 := by decide +kernel
  rw [keptAmong_eq (isNew_ofShare _) (interval_pos (by norm_num) (by norm_num)) (hall _), hthree]
  have hceil : ⌈(2 ^ 64 / 3 : ℚ)⌉₊ = 6148914691236517206 := by
    rw [Nat.ceil_eq_iff (by norm_num)]
    norm_num
  rw [Nat.cast_ofNat, hceil]
  norm_num

end Sampler
end TypedRoutes
