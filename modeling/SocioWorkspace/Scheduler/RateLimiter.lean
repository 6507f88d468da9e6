import Mathlib.Algebra.Order.Ring.Rat
import Mathlib.Tactic.Linarith

/-!
# The hourly quota

Model of `acquire` of `automation/rate_limiter.py`. A window starts with the first call that finds the last one
an hour old. Floats are exact rationals. The clock is read once in a call, and again when a window starts; how
long a call sleeps shows in the times of the calls after it.
-/

namespace SocioWorkspace.Scheduler

/-- Python `HOURLY_LIMIT`. -/
def HOURLY_LIMIT : ℤ := 5000

/-- Python `SAFETY_BUFFER`. -/
def SAFETY_BUFFER : ℤ := 500

/-- Python `BACKOFF_THRESHOLD`. -/
def BACKOFF_THRESHOLD : ℚ := 4 / 5

/-- Python `EMERGENCY_THRESHOLD`. -/
def EMERGENCY_THRESHOLD : ℚ := 19 / 20

/-- Python `RateLimiter`, with its `metrics`. -/
structure RateLimiter where
  hourlyLimit : ℤ
  safetyBuffer : ℤ
  hourStart : ℚ
  callsThisHour : ℤ
  callsToday : ℤ
  backoffEvents : ℕ
  blockedEvents : ℕ
  emergencyStops : ℕ

/-- A call of `acquire`, with the two readings of the clock. -/
structure AcquireCall where
  cost : ℕ
  now : ℚ
  later : ℚ

namespace RateLimiter

/-- Python `RateLimiter(hourly_limit, safety_buffer)`. -/
def init (hourlyLimit safetyBuffer : ℤ) (now : ℚ) : RateLimiter :=
  ⟨hourlyLimit, safetyBuffer, now, 0, 0, 0, 0, 0⟩

def availableQuota (limiter : RateLimiter) : ℤ := limiter.hourlyLimit - limiter.safetyBuffer

/-- Python `RateLimiter._maybe_reset_hour`. -/
def maybeResetHour (limiter : RateLimiter) (call : AcquireCall) : RateLimiter :=
  if 3600 ≤ call.now - limiter.hourStart then
    { limiter with hourStart := call.later, callsThisHour := 0 }
  else
    limiter

/-- Python `RateLimiter.usage_fraction`. -/
def usageFraction (limiter : RateLimiter) : ℚ :=
  if limiter.availableQuota = 0 then 1 else limiter.callsThisHour / limiter.availableQuota

/-- The body of `acquire` behind the reset. -/
def consume (limiter : RateLimiter) (cost : ℕ) : Bool × RateLimiter :=
  if EMERGENCY_THRESHOLD ≤ limiter.usageFraction then
    (false, { limiter with
      emergencyStops := limiter.emergencyStops + 1, blockedEvents := limiter.blockedEvents + 1 })
  else if limiter.availableQuota < limiter.callsThisHour + cost then
    (false, { limiter with blockedEvents := limiter.blockedEvents + 1 })
  else
    (true, { limiter with
      callsThisHour := limiter.callsThisHour + cost
      callsToday := limiter.callsToday + cost
      backoffEvents := limiter.backoffEvents + if BACKOFF_THRESHOLD ≤ limiter.usageFraction then 1 else 0 })

/-- Python `RateLimiter.acquire`. -/
def acquire (limiter : RateLimiter) (call : AcquireCall) : Bool × RateLimiter :=
  (limiter.maybeResetHour call).consume call.cost

def granted (limiter : RateLimiter) (call : AcquireCall) : ℤ :=
  if (limiter.acquire call).1 then call.cost else 0

/-- What the calls of the hour from `a` on are granted. -/
def grantedWithin (a : ℚ) : RateLimiter → List AcquireCall → ℤ
  | _, [] => 0
  | limiter, call :: calls =>
    (if a ≤ call.now ∧ call.now ≤ a + 3600 then limiter.granted call else 0) +
      grantedWithin a (limiter.acquire call).2 calls

end RateLimiter

def Clocked : ℚ → List AcquireCall → Prop
  | _, [] => True
  | t, call :: calls => t ≤ call.now ∧ call.now ≤ call.later ∧ Clocked call.later calls

def RespectsQuota (hourlyLimit safetyBuffer : ℤ) : Prop :=
  ∀ start calls a, Clocked start calls →
    (RateLimiter.init hourlyLimit safetyBuffer start).grantedWithin a calls ≤ hourlyLimit

namespace RateLimiter
variable {limiter : RateLimiter} {call : AcquireCall} {calls : List AcquireCall} {a t : ℚ} {q : ℤ}

def left (limiter : RateLimiter) : ℤ := max 0 (limiter.availableQuota - limiter.callsThisHour)

lemma granted_nonneg : 0 ≤ limiter.granted call := by
  rw [granted]
  split_ifs <;> omega

lemma hourStart_acquire : (limiter.acquire call).2.hourStart = (limiter.maybeResetHour call).hourStart := by
  rw [acquire, consume]
  split_ifs <;> rfl

lemma availableQuota_acquire : (limiter.acquire call).2.availableQuota = limiter.availableQuota := by
  rw [acquire, consume, maybeResetHour]
  split_ifs <;> rfl

lemma callsThisHour_acquire :
    (limiter.acquire call).2.callsThisHour =
      (limiter.maybeResetHour call).callsThisHour + limiter.granted call := by
  rw [granted, acquire, consume]
  split_ifs <;> simp_all

lemma granted_add_left :
    limiter.granted call + (limiter.acquire call).2.left ≤ (limiter.maybeResetHour call).left := by
  have hquota : (limiter.maybeResetHour call).availableQuota = limiter.availableQuota := by
    rw [maybeResetHour]
    split_ifs <;> rfl
  rw [left, left, availableQuota_acquire, callsThisHour_acquire, hquota]
  have hgranted : limiter.granted call = 0 ∨
      (limiter.maybeResetHour call).callsThisHour + limiter.granted call ≤ limiter.availableQuota := by
    rw [granted, acquire, consume, hquota]
    split_ifs <;> simp_all
  have hnonneg : 0 ≤ limiter.granted call := granted_nonneg
  omega

lemma maybeResetHour_of_lt (h : call.now < limiter.hourStart + 3600) :
    limiter.maybeResetHour call = limiter := by
  rw [maybeResetHour, if_neg (by linarith)]

lemma maybeResetHour_idem (hlater : call.now ≤ call.later) :
    (limiter.maybeResetHour call).maybeResetHour call = limiter.maybeResetHour call := by
  by_cases h : call.now < limiter.hourStart + 3600
  · rw [maybeResetHour_of_lt h, maybeResetHour_of_lt h]
  · refine maybeResetHour_of_lt ?_
    rw [maybeResetHour, if_pos (by linarith)]
    show call.now < call.later + 3600
    linarith

lemma grantedWithin_maybeResetHour (hlater : call.now ≤ call.later) :
    (limiter.maybeResetHour call).grantedWithin a (call :: calls) =
      limiter.grantedWithin a (call :: calls) := by
  rw [grantedWithin, grantedWithin, granted, granted, acquire, acquire, maybeResetHour_idem hlater]

lemma grantedWithin_of_after (h : Clocked t calls) (ht : a + 3600 < t) :
    limiter.grantedWithin a calls = 0 := by
  induction calls generalizing limiter t with
  | nil => rfl
  | cons call calls ih =>
    obtain ⟨hnow, hlater, hcalls⟩ := h
    rw [grantedWithin, if_neg (by intro hin; linarith [hin.2]), ih hcalls (by linarith)]
    rfl

lemma grantedWithin_cons_le {b}
    (hcalls : (limiter.acquire call).2.grantedWithin a calls ≤ (limiter.acquire call).2.left + b) :
    limiter.grantedWithin a (call :: calls) ≤ (limiter.maybeResetHour call).left + b := by
  have hleft := @granted_add_left limiter call
  have hnonneg := @granted_nonneg limiter call
  rw [grantedWithin]
  split_ifs <;> omega

/-- A window that starts in the hour lasts until its end. -/
lemma grantedWithin_of_started (h : Clocked t calls) (hstart : a < limiter.hourStart) :
    limiter.grantedWithin a calls ≤ limiter.left := by
  induction calls generalizing limiter t with
  | nil => exact le_max_left ..
  | cons call calls ih =>
    obtain ⟨hnow, hlater, hcalls⟩ := h
    by_cases hopen : call.now < limiter.hourStart + 3600
    · have hreset := maybeResetHour_of_lt hopen
      have hle := @grantedWithin_cons_le limiter call calls a 0
        (by rw [add_zero]; exact ih hcalls (by rwa [hourStart_acquire, hreset]))
      rwa [hreset, add_zero] at hle
    · have hclocked : Clocked call.now (call :: calls) := ⟨le_rfl, hlater, hcalls⟩
      rw [grantedWithin_of_after hclocked (by linarith)]
      exact le_max_left ..

/-- The hour sees what is left of the window that is open when it starts, and the next window. -/
lemma grantedWithin_of_open (h : Clocked t calls) (hopen : a < limiter.hourStart + 3600)
    (hq : limiter.availableQuota = q) : limiter.grantedWithin a calls ≤ limiter.left + max 0 q := by
  induction calls generalizing limiter t with
  | nil => exact add_nonneg (le_max_left ..) (le_max_left ..)
  | cons call calls ih =>
    obtain ⟨hnow, hlater, hcalls⟩ := h
    by_cases hnext : call.now < limiter.hourStart + 3600
    · have hreset := maybeResetHour_of_lt hnext
      have hle := grantedWithin_cons_le (ih hcalls (by rwa [hourStart_acquire, hreset])
        (availableQuota_acquire.trans hq))
      rwa [hreset] at hle
    · have hclocked : Clocked call.now (call :: calls) := ⟨le_rfl, hlater, hcalls⟩
      have hreset : limiter.maybeResetHour call =
          { limiter with hourStart := call.later, callsThisHour := 0 } := if_pos (by linarith)
      have hle := @grantedWithin_of_started (limiter.maybeResetHour call) _ _ _ hclocked
        (by rw [hreset]; show a < call.later; linarith)
      rw [grantedWithin_maybeResetHour hlater] at hle
      have hleft : (limiter.maybeResetHour call).left = max 0 q := by
        rw [hreset, ← hq]
        exact congrArg (max 0) (sub_zero limiter.availableQuota)
      have hnonneg : 0 ≤ limiter.left := le_max_left ..
      omega

lemma grantedWithin_le (h : Clocked t calls) (hcount : 0 ≤ limiter.callsThisHour)
    (hq : limiter.availableQuota = q) : limiter.grantedWithin a calls ≤ 2 * max 0 q := by
  induction calls generalizing limiter t with
  | nil =>
    rw [grantedWithin]
    omega
  | cons call calls ih =>
    obtain ⟨hnow, hlater, hcalls⟩ := h
    have hclocked : Clocked call.now (call :: calls) := ⟨le_rfl, hlater, hcalls⟩
    -- The window of the call: it counts from 0 if it starts here.
    have hwindow : 0 ≤ (limiter.maybeResetHour call).callsThisHour ∧
        (limiter.maybeResetHour call).availableQuota = q := by
      rw [maybeResetHour]
      split_ifs
      · exact ⟨le_rfl, hq⟩
      · exact ⟨hcount, hq⟩
    by_cases hopen : a < (limiter.maybeResetHour call).hourStart + 3600
    · have hle := grantedWithin_of_open hclocked hopen hwindow.2
      rw [grantedWithin_maybeResetHour hlater, left, hwindow.2] at hle
      omega
    · -- A call of a window that is over when the hour starts is not in the hour.
      have hbefore : call.now < a := by
        rw [maybeResetHour] at hopen
        split_ifs at hopen with hreset
        · have hend : call.later + 3600 ≤ a := not_lt.1 hopen
          linarith
        · linarith
      rw [grantedWithin, if_neg (by intro hin; linarith [hin.1]), zero_add]
      refine ih hcalls ?_ (availableQuota_acquire.trans hq)
      rw [callsThisHour_acquire]
      exact add_nonneg hwindow.1 granted_nonneg

end RateLimiter

/-- An hour can see the end of one window and the start of the next, so the limit is respected exactly if it
has room for two windows. -/
theorem respectsQuota_iff (hourlyLimit safetyBuffer : ℤ) :
    RespectsQuota hourlyLimit safetyBuffer ↔ 0 ≤ hourlyLimit ∧ hourlyLimit ≤ 2 * safetyBuffer := by
  constructor
  · intro h
    have hnonneg : 0 ≤ hourlyLimit := h 0 [] 0 trivial
    refine ⟨hnonneg, ?_⟩
    by_contra hlt
    -- The whole quota, one second before the window ends and when the next one starts.
    obtain ⟨cost, hcost⟩ := Int.eq_ofNat_of_zero_le (show 0 ≤ hourlyLimit - safetyBuffer by omega)
    have hle := h 0 [⟨cost, 3599, 3599⟩, ⟨cost, 3600, 3600⟩] 3599
      ⟨by norm_num, le_rfl, by norm_num, le_rfl, trivial⟩
    have hpos : hourlyLimit - safetyBuffer ≠ 0 := by omega
    norm_num [RateLimiter.grantedWithin, RateLimiter.granted, RateLimiter.acquire, RateLimiter.consume,
      RateLimiter.maybeResetHour, RateLimiter.init, RateLimiter.usageFraction,
      RateLimiter.availableQuota, EMERGENCY_THRESHOLD, hpos, ← hcost] at hle
    omega
  · rintro ⟨hnonneg, hbuffer⟩ start calls a hcalls
    have hle := @RateLimiter.grantedWithin_le (.init hourlyLimit safetyBuffer start) _ a _ _
      hcalls le_rfl rfl
    have hquota : (RateLimiter.init hourlyLimit safetyBuffer start).availableQuota =
      hourlyLimit - safetyBuffer := rfl
    omega

/-- Two calls for all of the quota, one second apart. -/
theorem default_quota_exceeded : ¬ RespectsQuota HOURLY_LIMIT SAFETY_BUFFER := by
  intro h
  have hclocked : Clocked 0 [⟨4500, 3599, 3599⟩, ⟨4500, 3600, 3600⟩] :=
    ⟨by norm_num, le_rfl, by norm_num, le_rfl, trivial⟩
  exact absurd (h 0 _ 3599 hclocked) (by decide +kernel)

end SocioWorkspace.Scheduler
