import Flexiq.Delimited
import Flexiq.Poller

/-!
# Rate limits

A rate limit is a bucket of tokens in the store, refilled by the time that has passed since it was
last refilled. Whoever wants a token reads the clock and then runs one transaction that refills the
bucket up to that reading and takes a token if there is one.

Two questions are settled here. How many tokens can be taken in a stretch of time: as many as the
bucket holds and is refilled with, as long as each transaction runs while the clock still shows what
its caller read (`tokens_bounded`); the transaction writes its reading even when that is older than
the bucket's, so a late one turns the bucket back and the same time is refilled twice
(`tokens_refilled_twice`). And whose bucket it is: the scheduler's keys are texts put together from
names, and names can be chosen such that two subjects meet in one key
(`limiter_subjects_apart_iff`).
-/

namespace Flexiq

open Function List

/-! ## The bucket -/

/-- `RateLimitConfig`, over exact numbers. -/
structure RateLimitConfig where
  maxTokens : ℚ
  /-- Tokens per second. -/
  refillRate : ℚ
  deriving DecidableEq

/-- A row of `rate_limits`. -/
structure RateLimitRow where
  tokens : ℚ
  maxTokens : ℚ
  refillRate : ℚ
  lastRefill : Int
  deriving DecidableEq

/-- The table, by key. -/
abbrev Buckets := String → Option RateLimitRow

/-- The tokens after a refill. -/
def RateLimitRow.refilled (row : RateLimitRow) (config : RateLimitConfig) (now : Int) : ℚ :=
  let elapsedMs : ℚ := (max (now - row.lastRefill) 0 : Int)
  min (row.tokens + elapsedMs / 1000 * config.refillRate) config.maxTokens

/-- The transaction of `try_acquire_token`: a missing bucket is a full one. -/
def acquireToken (key : String) (config : RateLimitConfig) (now : Int) (buckets : Buckets) :
    Bool × Buckets :=
  let row := (buckets key).getD ⟨config.maxTokens, config.maxTokens, config.refillRate, now⟩
  let tokens := row.refilled config now
  if 1 ≤ tokens then
    (true, update buckets key (some { row with tokens := tokens - 1, lastRefill := now }))
  else (false, update buckets key (some { row with tokens := tokens, lastRefill := now }))

/-! ## Callers -/

/-- A token that was given out: the clock when its caller read it, and when it was given. -/
structure Grant where
  key : String
  read : Int
  given : Int
  deriving DecidableEq

structure LimiterState where
  clock : Int
  buckets : Buckets
  /-- Every token that was given out, the latest first. -/
  granted : List Grant

inductive LimiterOp where
  | nowMillis
  | acquire (key : String) (config : RateLimitConfig) (now : Int)

def LimiterOp.Res : LimiterOp → Type
  | nowMillis => Int
  | acquire _ _ _ => Bool

abbrev limiterSig : Signature := ⟨LimiterOp, LimiterOp.Res⟩

def LimiterOp.act : (op : LimiterOp) → LimiterState → op.Res × LimiterState
  | nowMillis, st => (st.clock, st)
  | acquire key config now, st =>
    let r := acquireToken key config now st.buckets
    (r.1, { st with
      buckets := r.2
      granted := bif r.1 then ⟨key, now, st.clock⟩ :: st.granted else st.granted })

/-- The store and the common clock, which moves before an operation. -/
abbrev limiterMachine : Machine limiterSig where
  State := LimiterState
  Env := Nat
  exec op elapsed st := op.act { st with clock := st.clock + elapsed }

/-- `try_acquire_token`. -/
def tryAcquireToken (key : String) (config : RateLimitConfig) : Prog limiterSig Bool :=
  (Prog.perform (S := limiterSig) .nowMillis).bind fun now =>
    Prog.perform (S := limiterSig) (.acquire key config now)

abbrev limiterClients : Clients limiterSig :=
  ⟨String × RateLimitConfig, fun c => (tryAcquireToken c.1 c.2).bind fun _ => .ret ()⟩

/-- The bucket of `key` is only used with `config`. -/
def LimiterOp.uses (key : String) (config : RateLimitConfig) : LimiterOp → Bool
  | acquire key' config' _ => key' = key → config' = config
  | nowMillis => true

/-- A transaction on `key` runs while the clock still shows its reading, and the bucket was not
refilled later than that. -/
def LimiterOp.prompt (key : String) (st : LimiterState) : LimiterOp → Bool
  | acquire key' _ now =>
    key' = key → now = st.clock ∧ (st.buckets key).all (fun row => row.lastRefill ≤ now) = true
  | nowMillis => true

/-- Any callers in any interleaving. -/
abbrev limiterRules (key : String) (config : RateLimitConfig) (τ : Type) :
    Rules limiterMachine limiterClients τ where
  mayStart _ _ _ := True
  mayStep _ _ op _ := LimiterOp.uses key config op = true

/-- The same, when no transaction on `key` is held up. -/
abbrev promptLimiterRules (key : String) (config : RateLimitConfig) (τ : Type) :
    Rules limiterMachine limiterClients τ where
  mayStart _ _ _ := True
  mayStep st _ op elapsed := LimiterOp.uses key config op = true ∧
    LimiterOp.prompt key { st with clock := st.clock + elapsed } op = true

/-! ## How many tokens -/

/-- The calls for `key` that returned true while the clock was in `[a, b]`. -/
def LimiterState.tokensIn (st : LimiterState) (key : String) (a b : ℚ) : ℕ :=
  st.granted.countP fun g => g.key = key ∧ a ≤ g.given ∧ g.given ≤ b

section Bound

variable {key : String} {config : RateLimitConfig} {a b : ℚ} {st : LimiterState}

/-- What the bucket holds and what was given out of it since `a` is at most what it can hold and
was refilled with since. -/
structure TokenInv (key : String) (config : RateLimitConfig) (a b : ℚ) (st : LimiterState) :
    Prop where
  bound : st.tokensIn key a b ≤ config.maxTokens + config.refillRate * (b - a) / 1000
  absent : st.buckets key = none → st.tokensIn key a b = 0
  early : ∀ row, st.buckets key = some row → (row.lastRefill : ℚ) < a → st.tokensIn key a b = 0
  held : ∀ row, st.buckets key = some row → a ≤ row.lastRefill → (row.lastRefill : ℚ) ≤ b →
    min row.tokens config.maxTokens + st.tokensIn key a b ≤
      config.maxTokens + config.refillRate * (row.lastRefill - a) / 1000

/-- One transaction on the bucket, whose row is `row`: `n` tokens were given out since `a`. -/
theorem refilled_le (hrate : 0 ≤ config.refillRate) {row : RateLimitRow} {now : Int} {n : ℕ}
    (horder : row.lastRefill ≤ now) (ha : a ≤ now) (hearly : (row.lastRefill : ℚ) < a → n = 0)
    (hheld : a ≤ row.lastRefill → min row.tokens config.maxTokens + n ≤
      config.maxTokens + config.refillRate * (row.lastRefill - a) / 1000) :
    row.refilled config now + n ≤ config.maxTokens + config.refillRate * (now - a) / 1000 := by
  have hstep : ((max (now - row.lastRefill) 0 : Int) : ℚ) = now - row.lastRefill := by
    rw [max_eq_left (by omega)]
    push_cast
    ring
  unfold RateLimitRow.refilled
  rw [hstep]
  obtain hlt | hle := lt_or_ge (row.lastRefill : ℚ) a
  · -- the first reading since `a`: the bucket holds no more than it can
    rw [hearly hlt]
    have hfull := min_le_right (row.tokens + (now - row.lastRefill) / 1000 * config.refillRate)
      config.maxTokens
    have hgain : 0 ≤ config.refillRate * (now - a) := mul_nonneg hrate (by linarith)
    push_cast
    linarith
  · have hbefore := hheld hle
    have hsince : 0 ≤ (now - row.lastRefill : ℚ) * config.refillRate := by
      have hnow : (row.lastRefill : ℚ) ≤ now := by exact_mod_cast horder
      exact mul_nonneg (by linarith) hrate
    have hmore : min (row.tokens + (now - row.lastRefill) / 1000 * config.refillRate)
        config.maxTokens ≤
          min row.tokens config.maxTokens + (now - row.lastRefill) * config.refillRate / 1000 := by
      rw [← min_add_add_right]
      exact min_le_min (by linarith) (by linarith)
    linarith

theorem prompt_iff {now : Int} : (LimiterOp.acquire key config now).prompt key st = true ↔
    now = st.clock ∧ ∀ row, st.buckets key = some row → row.lastRefill ≤ now := by
  simp [LimiterOp.prompt, Option.all_eq_true]

theorem tokensIn_grant (g : Grant) (clock : Int) (buckets : Buckets) :
    LimiterState.tokensIn ⟨clock, buckets, g :: st.granted⟩ key a b =
      st.tokensIn key a b + if g.key = key ∧ a ≤ g.given ∧ g.given ≤ b then 1 else 0 := by
  simp [LimiterState.tokensIn, countP_cons]

section

variable (h : TokenInv key config a b st)
include h

variable {now : Int}

theorem TokenInv.row (hrate : 0 ≤ config.refillRate)
    (hprompt : (LimiterOp.acquire key config now).prompt key st = true) (ha : a ≤ now)
    (hb : (now : ℚ) ≤ b) :
    ((st.buckets key).getD ⟨config.maxTokens, config.maxTokens, config.refillRate, now⟩).refilled
        config now + st.tokensIn key a b ≤
      config.maxTokens + config.refillRate * (now - a) / 1000 := by
  rcases hrow : st.buckets key with _ | row
  · refine refilled_le hrate (le_refl now) ha (fun _ => h.absent hrow) fun _ => ?_
    have hgain : 0 ≤ config.refillRate * (now - a) := mul_nonneg hrate (by linarith)
    rw [h.absent hrow]
    simpa using by linarith
  · have hle := (prompt_iff.1 hprompt).2 row hrow
    have hleq : (row.lastRefill : ℚ) ≤ now := by exact_mod_cast hle
    exact refilled_le hrate hle ha (h.early row hrow) fun hr => h.held row hrow hr (hleq.trans hb)

/-- Before `a` nothing counts. -/
theorem TokenInv.none_yet (hprompt : (LimiterOp.acquire key config now).prompt key st = true)
    (ha : (now : ℚ) < a) : st.tokensIn key a b = 0 := by
  rcases hrow : st.buckets key with _ | row
  · exact h.absent hrow
  · have hle := (prompt_iff.1 hprompt).2 row hrow
    have hleq : (row.lastRefill : ℚ) ≤ now := by exact_mod_cast hle
    exact h.early row hrow (hleq.trans_lt ha)

/-- **A transaction that is not held up**: its token is given when its caller read the clock. -/
theorem TokenInv.acquire (hrate : 0 ≤ config.refillRate)
    (hprompt : (LimiterOp.acquire key config now).prompt key st = true) :
    TokenInv key config a b ((LimiterOp.acquire key config now).act st).2 := by
  have hlate := fun ha hb => h.row hrate hprompt ha hb
  have hearly := fun ha => h.none_yet hprompt ha
  have hbound := h.bound
  have hclock := (prompt_iff.1 hprompt).1.symm
  generalize hrow : (st.buckets key).getD
    ⟨config.maxTokens, config.maxTokens, config.refillRate, now⟩ = row at hlate
  simp only [LimiterOp.act, acquireToken, hrow, hclock]
  split
  · next _ =>
    refine ⟨?_, by simp, ?_, ?_⟩ <;> rw [cond_true, tokensIn_grant]
    · split
      · next hin =>
        obtain ⟨-, ha, hb⟩ := hin
        have hsum := hlate ha hb
        have hgain : config.refillRate * (now - a) ≤ config.refillRate * (b - a) :=
          mul_le_mul_of_nonneg_left (by linarith) hrate
        push_cast
        linarith
      · simpa using hbound
    · rintro row' hrow' hlt
      obtain rfl : _ = row' := by simpa using hrow'
      rw [hearly hlt, if_neg fun hin => absurd hin.2.1 (not_le.2 hlt)]
    · rintro row' hrow' ha hb
      obtain rfl : _ = row' := by simpa using hrow'
      have hsum := hlate ha hb
      rw [if_pos ⟨rfl, ha, hb⟩]
      push_cast
      linarith [min_le_left (row.refilled config now - 1) config.maxTokens]
  · refine ⟨hbound, by simp, ?_, ?_⟩
    · rintro row' hrow' hlt
      obtain rfl : _ = row' := by simpa using hrow'
      exact hearly hlt
    · rintro row' hrow' ha hb
      obtain rfl : _ = row' := by simpa using hrow'
      exact (add_le_add (min_le_left _ _) le_rfl).trans (hlate ha hb)

theorem TokenInv.act (hrate : 0 ≤ config.refillRate) {op : LimiterOp}
    (huses : op.uses key config = true) (hprompt : op.prompt key st = true) :
    TokenInv key config a b (op.act st).2 := by
  cases op with
  | nowMillis => exact h
  | acquire key' config' now =>
    by_cases hkey : key' = key
    · subst hkey
      obtain rfl : config' = config := by simpa [LimiterOp.uses] using huses
      exact h.acquire hrate hprompt
    · have hbuckets : (acquireToken key' config' now st.buckets).2 key = st.buckets key := by
        unfold acquireToken
        dsimp only
        split <;> exact update_of_ne (Ne.symm hkey) _ _
      have htokens : ((LimiterOp.acquire key' config' now).act st).2.tokensIn key a b =
          st.tokensIn key a b := by
        simp only [LimiterOp.act]
        cases (acquireToken key' config' now st.buckets).1
        · rfl
        · exact (tokensIn_grant ..).trans (by simp [hkey])
      have hrow : ((LimiterOp.acquire key' config' now).act st).2.buckets key = st.buckets key :=
        hbuckets
      refine ⟨?_, ?_, ?_, ?_⟩ <;> rw [htokens]
      · exact h.bound
      all_goals rw [hrow]
      exacts [h.absent, h.early, h.held]

end

/-- **Tokens are bounded** in every run in which no transaction on the key is held up: between `a`
and `b` at most as many calls return true as the bucket holds and is refilled with in the meantime.
-/
theorem tokens_bounded {τ : Type} [DecidableEq τ] (hmax : 1 ≤ config.maxTokens)
    (hrate : 0 ≤ config.refillRate) {clock : Int} {buckets : Buckets} {c : Pool limiterMachine τ}
    (h : Pool.Reaches (promptLimiterRules key config τ) (Pool.idle ⟨clock, buckets, []⟩) c)
    (hab : a ≤ b) :
    (c.state.tokensIn key a b : ℚ) ≤ config.maxTokens + config.refillRate * ((b - a) / 1000) := by
  have hinv : TokenInv key config a b c.state := by
    refine Pool.invariant (P := TokenInv key config a b) ?_ ?_ h
    · intro st _ _ elapsed hst hop
      have hmoved : TokenInv key config a b { st with clock := st.clock + elapsed } :=
        ⟨hst.bound, hst.absent, hst.early, hst.held⟩
      exact hmoved.act hrate hop.1 hop.2
    · -- nothing was given out yet
      have hgain : 0 ≤ config.refillRate * (b - a) := mul_nonneg hrate (by linarith)
      refine ⟨?_, fun _ => rfl, fun _ _ _ => rfl, fun row _ ha _ => ?_⟩
      · simp only [LimiterState.tokensIn, Pool.idle, countP_nil]
        push_cast
        linarith
      · have hrefill : 0 ≤ config.refillRate * (row.lastRefill - a) :=
          mul_nonneg hrate (by linarith)
        simp only [LimiterState.tokensIn, Pool.idle, countP_nil]
        push_cast
        linarith [min_le_right row.tokens config.maxTokens]
  have hbound := hinv.bound
  linarith

end Bound

/-- One token, and one more every second. -/
def oneToken : RateLimitConfig := ⟨1, 1⟩

/-- The caller reads the clock when `wait` has passed, and runs its transaction at once. -/
def takeMoves (t : Fin 2) (wait : Nat) : List (Move limiterMachine limiterClients (Fin 2)) :=
  [.start t ("k", oneToken), .step t wait, .step t 0]

/-- Two tokens in a second. -/
theorem tokens_bounded_once : ∃ c, Pool.Reaches (promptLimiterRules "k" oneToken (Fin 2))
      (Pool.idle ⟨0, fun _ => none, []⟩) c ∧ c.state.tokensIn "k" 0 1000 = 2 ∧
    (c.state.tokensIn "k" 0 1000 : ℚ) ≤ 1 + 1 * ((1000 - 0) / 1000) := by
  refine Pool.exists_reaches_and (takeMoves 0 0 ++ takeMoves 1 1000) ?_ fun c hc =>
    tokens_bounded (le_refl 1) zero_le_one hc (by decide)
  decide +kernel

/-- **Time is refilled twice.** A caller reads the clock at 0 and is held up. At 1000 another takes
the token of that second; then the first transaction runs, finds no token and sets the bucket back
to 0, and a third call at 1000 takes the token of the same second again. -/
theorem tokens_refilled_twice : ∃ c, Pool.Reaches (limiterRules "k" oneToken (Fin 2))
      (Pool.idle ⟨0, fun _ => none, []⟩) c ∧
    c.state.granted.countP (fun g => g.key = "k" ∧ g.read = 1000 ∧ g.given = 1000) = 2 ∧
    ¬ (c.state.tokensIn "k" 1000 1000 : ℚ) ≤ 1 + 1 * ((1000 - 1000) / 1000) :=
  Pool.exists_reaches _ _ (takeMoves 0 0 ++ [.start 1 ("k", oneToken), .step 1 0] ++
    takeMoves 0 1000 ++ [.step 1 0] ++ takeMoves 0 0) _ (by decide +kernel)

/-! ## Whose tokens -/

inductive LimiterSubject where
  | queue (name : String)
  | task (name : String)
  | retries (namespace_ : Option String) (task : String)
  deriving DecidableEq

def LimiterSubject.key : LimiterSubject → String
  | queue name => "queue:" ++ name
  | task name => name
  | retries ns name => "retry::" ++ ns.getD "" ++ "::" ++ name

open LimiterSubject (key)

/-- The operation takes tokens of these subjects only. -/
def LimiterSubject.Asked (subjects : List LimiterSubject) {σ : Type} : SchedOp σ → Prop
  | .tryAcquire _ key => ∃ subject ∈ subjects, key = subject.key
  | _ => True

section Asked

variable {σ : Type} (cfg : σ → Scheduler) (s : σ)

theorem asked_gates (job : Job) : (Sched.checkPreClaimGates cfg s job).Calls
    (LimiterSubject.Asked [.queue job.queue, .task job.taskName]) := by
  have hqueue : ∀ onExcess, (Sched.queueGate cfg s job onExcess).Calls
      (LimiterSubject.Asked [.queue job.queue, .task job.taskName]) := by
    intro _
    unfold Sched.queueGate
    split
    · refine .bind (.perform ⟨.queue job.queue, by simp, rfl⟩) fun r => ?_
      rcases r with _ | _ | _ <;> trivial
    · trivial
  refine .bind (hqueue _) fun r => ?_
  split
  · split
    · trivial
    · refine .bind ?_ fun r => ?_
      · unfold Sched.breakerGate
        split
        · refine .bind (.perform trivial) fun r => ?_
          rcases r with _ | _ | _ <;> trivial
        · trivial
      · split
        · unfold Sched.taskGate
          split
          · refine .bind (.perform ⟨.task job.taskName, by simp, rfl⟩) fun r => ?_
            rcases r with _ | _ | _ <;> trivial
          · trivial
        · trivial
  · trivial

theorem asked_budget (taskName : String) : (Sched.retryBudgetAllows cfg s taskName).Calls
    (LimiterSubject.Asked [.retries (cfg s).namespace_ taskName]) := by
  unfold Sched.retryBudgetAllows
  split
  · refine .bind (.perform ⟨_, mem_singleton_self _, rfl⟩) fun r => ?_
    cases r <;> trivial
  · trivial

end Asked

/-- A call of `try_acquire` for a subject. -/
structure Acquisition where
  subject : LimiterSubject
  config : RateLimitConfig
  now : Int

/-- The answers that `s` gets in a sequence of calls. -/
def answers (s : LimiterSubject) : List Acquisition → Buckets → List Bool
  | [], _ => []
  | c :: cs, buckets =>
    let r := acquireToken c.subject.key c.config c.now buckets
    if c.subject = s then r.1 :: answers s cs r.2 else answers s cs r.2

/-- What others take does not change what `s` is told. -/
def LimiterSubject.Undisturbed (s t : LimiterSubject) : Prop :=
  ∀ calls : List Acquisition, (∀ c ∈ calls, c.subject = s ∨ c.subject = t) → ∀ buckets,
    answers s calls buckets = answers s (calls.filter (·.subject = s)) buckets

/-- The namespace `c` and the task `d` are `a` and `b` with the cut between them moved: a colon, or
everything up to a later `::`, goes over from the task to the namespace. -/
def CutMoved (a b c d : String) : Prop :=
  Delimited.DoubleShifted ':' a.toList b.toList c.toList d.toList

/-- Two subjects that share a bucket: a task that is named like the key of a queue or of a retry
budget, and the retries of two tasks in two namespaces with the cut moved between them, where no
namespace is the empty one. -/
def LimiterSubject.Meets : LimiterSubject → LimiterSubject → Prop
  | queue q, task t | task t, queue q => t = "queue:" ++ q
  | task t, retries ns u | retries ns u, task t => t = "retry::" ++ ns.getD "" ++ "::" ++ u
  | retries ns t, retries ns' t' => ns.getD "" = ns'.getD "" ∧ t = t' ∨
      CutMoved (ns.getD "") t (ns'.getD "") t' ∨ CutMoved (ns'.getD "") t' (ns.getD "") t
  | _, _ => False

/-- Two retry budgets have one key iff the cut between namespace and task was kept or moved. -/
theorem retries_key_eq_iff (a b c d : String) :
    "retry::" ++ a ++ "::" ++ b = "retry::" ++ c ++ "::" ++ d ↔
      a = c ∧ b = d ∨ CutMoved a b c d ∨ CutMoved c d a b := by
  have hlists : "retry::" ++ a ++ "::" ++ b = "retry::" ++ c ++ "::" ++ d ↔
      a.toList ++ ':' :: ':' :: b.toList = c.toList ++ ':' :: ':' :: d.toList := by
    simp [← String.toList_inj, String.toList_append]
  rw [hlists, Delimited.double_join_eq_iff, String.toList_inj, String.toList_inj]
  rfl

theorem key_eq_iff {s t : LimiterSubject} (hne : s ≠ t) : s.key = t.key ↔ s.Meets t := by
  -- texts that start apart
  have happart : ∀ x y, "queue:" ++ x ≠ "retry::" ++ y := by
    intro _ _ h
    have hfirst := congrArg (fun z => z.toList.head?) h
    simp [String.toList_append] at hfirst
  match s, t with
  | .queue q, .queue q' | .task t, .task t' => simpa [key, LimiterSubject.Meets] using hne
  | .queue q, .task t | .retries ns t, .task u => exact eq_comm
  | .queue q, .retries ns t =>
    simpa [key, LimiterSubject.Meets, String.append_assoc] using happart q _
  | .task t, .queue q | .task t, .retries ns u => exact Iff.rfl
  | .retries ns t, .queue q =>
    simpa [key, LimiterSubject.Meets, String.append_assoc] using (happart q _).symm
  | .retries ns t, .retries ns' t' => exact retries_key_eq_iff ..

/-- Buckets that agree on the key of `s` tell it the same. -/
theorem answers_filter {s : LimiterSubject} {calls : List Acquisition} {buckets buckets' : Buckets}
    (hcalls : ∀ c ∈ calls, c.subject = s ∨ c.subject.key ≠ s.key)
    (hsame : buckets s.key = buckets' s.key) :
    answers s calls buckets = answers s (calls.filter (·.subject = s)) buckets' := by
  induction calls generalizing buckets buckets' with
  | nil => rfl
  | cons c calls ih =>
    have hrest := fun c hc => hcalls c (mem_cons_of_mem _ hc)
    by_cases hc : c.subject = s
    · have hstep : ∀ config now, (acquireToken s.key config now buckets).1 =
            (acquireToken s.key config now buckets').1 ∧
          (acquireToken s.key config now buckets).2 s.key =
            (acquireToken s.key config now buckets').2 s.key := by
        intro _ _
        simp only [acquireToken, hsame]
        split <;> simp
      simp only [answers, filter_cons, hc, decide_true, if_true]
      rw [(hstep _ _).1, ih hrest (hstep _ _).2]
    · have hkey := (hcalls c mem_cons_self).resolve_left hc
      simp only [answers, filter_cons, hc, decide_false, if_false]
      refine ih hrest (Eq.trans ?_ hsame)
      unfold acquireToken
      dsimp only
      split <;> exact update_of_ne (hkey.symm) _ _

/-- **Two subjects are apart exactly when their names do not meet**, and then neither's calls change
what the other is told. -/
theorem limiter_subjects_apart_iff {s t : LimiterSubject} (hne : s ≠ t) :
    s.key ≠ t.key ∧ s.Undisturbed t ↔ ¬ s.Meets t := by
  rw [← key_eq_iff hne]
  refine ⟨fun h => h.1, fun hkey => ⟨hkey, fun calls hcalls buckets => ?_⟩⟩
  refine answers_filter (fun c hc => ?_) rfl
  obtain hs | ht := hcalls c hc
  · exact Or.inl hs
  · exact Or.inr fun heq => hkey (ht ▸ heq).symm

/-- A queue and a task of other names are apart. -/
theorem limiter_subjects_apart_sample :
    (LimiterSubject.queue "mail").key ≠ (LimiterSubject.task "send").key ∧
      (LimiterSubject.queue "mail").Undisturbed (.task "send") :=
  (limiter_subjects_apart_iff (by decide)).2 (show ¬ "send" = "queue:" ++ "mail" by decide)

/-- **Tenants share a budget**: the task `b::c` of the namespace `a` and the task `c` of the
namespace `a::b` have one bucket, and one is refused what the other took. -/
theorem limiter_subjects_meet : ∃ s t : LimiterSubject, s ≠ t ∧ s.key = t.key ∧
    ∃ calls, (∀ c ∈ calls, c.subject = s ∨ c.subject = t) ∧
      answers s calls (fun _ => none) ≠
        answers s (calls.filter (·.subject = s)) (fun _ => none) :=
  ⟨.retries (some "a") "b::c", .retries (some "a::b") "c", by decide, by decide,
    [⟨.retries (some "a::b") "c", oneToken, 0⟩, ⟨.retries (some "a") "b::c", oneToken, 0⟩],
    by decide, by decide +kernel⟩

end Flexiq
