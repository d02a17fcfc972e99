import Mathlib.Data.ENat.Lattice
import LineScript.World

/-!
# Requests that are made again

A text on the web is asked for again when a request fails, after a pause, and each pause is twice
as long as the one before.  The replies of a server are a sequence, of which each request takes one.
So it depends on this sequence alone which request is the last one.

The length of a pause is computed with the power of two by which the first one is multiplied, and
this power has to be a binary number.  It is none from `2 ^ 1024` on: request number 1024, counted
from zero, is the last one to be made, whatever its reply is.

## Main definitions

* `Reply.body?`, `Reply.fault` — the bodies of replies of success, and the failures that others
  mean.
* `FetchConfig.reply` — the replies that a client gets, by the number of the request.
* `FetchConfig.exchange` — the record of requests with pauses between them.
* `firstSuccess` — the position of the first reply of success.

## Main results

* `fetchUpTo_of_last` — **requests up to the last one, and none behind it.**
* `fetch_retries` — **how often a text is asked for, and what comes of it.**
-/

namespace LineScript

/-! ### Powers of two -/

namespace Double

theorem divHalfEven_mul (q : Nat) {b : Nat} (hb : 0 < b) : divHalfEven (q * b) b = q := by
  simp only [divHalfEven, Nat.mul_div_cancel _ hb, Nat.mul_mod_left]
  rw [if_neg (by simp; omega)]

/-- A power of two is a number of 53 bits; it is finite below `2 ^ 1024`. -/
theorem ofInt_two_pow (i : Nat) : ofInt (2 ^ i) = bounded false (2 ^ 52) (i - 52) := by
  have habs : ((2 : Int) ^ i).natAbs = 2 ^ i := by rw [Int.natAbs_pow]; rfl
  have hsign : decide ((2 : Int) ^ i < 0) = false :=
    decide_eq_false (Int.not_lt.2 (Int.pow_nonneg (by decide)))
  have hexp : max ((i : Int) - ((Nat.log2 1 : Nat) : Int) - 53) leastExponent = i - 53 := by
    rw [show Nat.log2 1 = 0 from rfl, leastExponent]
    omega
  -- the mantissa gets as many bits as it is asked for
  have hscaled : ∀ (k : Nat) {e : Int}, e = i - k → 0 < 1 * 2 ^ e.toNat ∧
      2 ^ i * 2 ^ (-e).toNat = 2 ^ k * (1 * 2 ^ e.toNat) := by
    rintro k e rfl
    rw [Nat.one_mul, ← Nat.pow_add, ← Nat.pow_add]
    exact ⟨Nat.two_pow_pos _, congrArg (2 ^ ·) (by omega)⟩
  obtain ⟨hpos, hwide⟩ := hscaled 53 (e := i - 53) rfl
  obtain ⟨hpos', hfits⟩ := hscaled 52 (e := i - 53 + 1) (by omega)
  unfold ofInt ofFraction
  rw [habs, hsign, if_neg (by simp)]
  simp only [Nat.log2_two_pow, hexp]
  rw [hwide, Nat.mul_div_cancel _ hpos, if_neg (Nat.lt_irrefl _), hfits, divHalfEven_mul _ hpos',
    show (i : Int) - 53 + 1 = i - 52 by omega]
  rfl

end Double

/-! ### Replies -/

/-- The body of a reply with a status of success. -/
def Reply.body? : Reply → Option String
  | .response status body => if 200 ≤ status ∧ status < 300 then some body else none
  | .failure _ => none

/-- The failure that a reply without success means. -/
def Reply.fault (url : String) : Reply → Fault
  | .response status body =>
    ⟨.running, "HTTP " ++ intText status ++ " for " ++ url ++ ": " ++
      String.ofList (body.toList.take 200)⟩
  | .failure f => f

open World

variable (url : String)

theorem outcome_eq (r : Reply) : outcome url r = r.body?.elim (.error (r.fault url)) .ok := by
  cases r with
  | failure f => rfl
  | response status body =>
    simp only [outcome, Reply.body?, Bool.and_eq_true, decide_eq_true_eq]
    split <;> rfl

/-- The reply to request number `i` from here on. -/
def World.reply (w : World) (url : String) (i : Nat) : Reply :=
  let replies := (w.routes.lookup url).getD []
  (replies[w.served.count url + i]?.orElse fun _ => replies.getLast?).getD (.response 404 "not found")

theorem reply_ask (w : World) (i : Nat) : (w.ask url).2.reply url i = w.reply url (i + 1) := by
  have hserved : (w.ask url).2.served.count url + i = w.served.count url + (i + 1) := by
    rw [ask, List.count_cons_self, Nat.add_assoc, Nat.add_comm 1 i]
  unfold World.reply
  rw [hserved]
  rfl

namespace FetchConfig

/-- The failure of a power of two that is too large. -/
def overflow : Fault := ⟨.tooLarge, "int too large to convert to float"⟩

variable (config : FetchConfig)

/-- The power of two of a pause is a binary number below `2 ^ 1024`, and none from there on. -/
theorem pause_eq (i : Nat) :
    config.pause i = if i < 1024 then .ok (config.backoff.scale i) else .error overflow := by
  have hlog : (Nat.log2 (2 ^ 52) : Int) + (i - 52) = i := by
    rw [Nat.log2_two_pow]
    omega
  unfold pause realOfInt
  simp only [Double.ofInt_two_pow, Double.bounded, hlog]
  by_cases h : i < 1024
  · have hbelow : ¬ (1024 : Int) ≤ i := by omega
    rw [if_pos h, if_neg hbelow]
    rfl
  · have habove : (1024 : Int) ≤ i := by omega
    rw [if_neg h, if_pos habove]
    rfl

/-- What the client gives for request number `i` from here on.  When it cannot send what is to be
sent along, it fails each time. -/
def reply (w : World) (url : String) (i : Nat) : Reply :=
  match config.headers.json with
  | .ok _ => w.reply url i
  | .error f => .failure f

/-- The record of one request. -/
def asks (url : String) : List WebEvent := (config.headers.json.toOption.map (.asked url)).toList

/-- A request takes the first reply, and leaves those behind it. -/
theorem request_cases (w : World) : ∃ w',
    request config url w = (outcome url (config.reply w url 0), w') ∧
      w'.events = w.events ++ config.asks url ∧
      ∀ i, config.reply w' url i = config.reply w url (i + 1) := by
  unfold request reply asks
  cases config.headers.json with
  | error f => exact ⟨w, rfl, (List.append_nil _).symm, fun _ => rfl⟩
  | ok headers => exact ⟨_, rfl, rfl, reply_ask url (w.note (.asked url headers))⟩

/-- The record of `m` requests from number `i` on, with a pause behind each of them, and of one
more request. -/
def exchange (url : String) : Nat → Nat → List WebEvent
  | _, 0 => config.asks url
  | i, m + 1 => config.asks url ++ .paused (config.backoff.scale i) :: exchange url (i + 1) m

/-- **Requests are made up to one that succeeds, the last one or number 1024**, and what comes of
this one is the answer. -/
theorem fetchUpTo_of_last {i n m : Nat} {w : World} {replies : Nat → Reply}
    (hreply : config.reply w url = replies) (hm : m ≤ n) (hpauses : i + m ≤ 1024)
    (hfail : ∀ j < m, (replies j).body? = none)
    (hlast : (replies m).body? = none → m = n ∨ i + m = 1024) :
    ∃ w', fetchUpTo config url (n + 1) i w = ((replies m).body?.elim
        (.error (if m = n then (replies m).fault url else overflow)) (.ok ∘ some), w') ∧
      w'.events = w.events ++ config.exchange url i m := by
  induction m generalizing i n w replies with
  | zero =>
    obtain ⟨w', hrequest, hasked, -⟩ := config.request_cases url w
    refine ⟨w', ?_, hasked⟩
    rw [fetchUpTo, hrequest, outcome_eq, hreply]
    cases hbody : (replies 0).body? with
    | some body => rfl
    | none =>
      cases n with
      | zero => rfl
      | succ n =>
        -- the power of two for the next pause is too large
        obtain rfl : i = 1024 := (hlast hbody).resolve_left (Nat.succ_ne_zero n).symm
        simp [config.pause_eq]
  | succ m ih =>
    obtain ⟨n, rfl⟩ : ∃ k, n = k + 1 := ⟨n - 1, by omega⟩
    obtain ⟨w₁, hrequest, hasked, hnext⟩ := config.request_cases url w
    obtain ⟨w', hloop, hevents⟩ := ih (i := i + 1) (n := n)
      (w := w₁.note (.paused (config.backoff.scale i))) (funext hnext) (by omega) (by omega)
      (fun j hj => hreply ▸ hfail (j + 1) (by omega)) fun hnone => by
        have := hlast (hreply ▸ hnone)
        omega
    rw [hreply] at hrequest hloop
    refine ⟨w', ?_, ?_⟩
    · rw [fetchUpTo, hrequest, outcome_eq, hfail 0 (Nat.succ_pos m)]
      simpa [config.pause_eq, show i < 1024 by omega] using hloop
    · rw [hevents, exchange]
      simp [note, hasked]

end FetchConfig

/-! ### How often a text is asked for -/

/-- The position of the first reply of success, counted from one; infinite when there is none. -/
noncomputable def firstSuccess (replies : Nat → Reply) : ℕ∞ :=
  ⨅ (i : Nat) (_ : (replies i).body? ≠ none), (i + 1 : ℕ∞)

section First

variable {replies : Nat → Reply} {m n : Nat}

theorem le_firstSuccess (h : ∀ i < m, (replies i).body? = none) : m + 1 ≤ firstSuccess replies := by
  refine le_iInf₂ fun i hi => ?_
  have hle : m ≤ i := le_of_not_gt fun hlt => hi (h i hlt)
  exact_mod_cast Nat.succ_le_succ hle

theorem firstSuccess_le (h : (replies m).body? ≠ none) : firstSuccess replies ≤ m + 1 :=
  iInf₂_le m h

/-- The last request is the first one that succeeds, unless the number of requests ends them. -/
theorem exists_last (replies : Nat → Reply) (n : Nat) :
    ∃ m ≤ n, (∀ i < m, (replies i).body? = none) ∧
      (m + 1 : ℕ∞) = min (firstSuccess replies) (n + 1) ∧
      ((replies m).body? = none → m = n ∧ n + 1 < firstSuccess replies) ∧
      ((replies m).body? ≠ none → firstSuccess replies ≤ n + 1) := by
  have hex : ∃ m, (replies m).body? ≠ none ∨ m = n := ⟨n, .inr rfl⟩
  obtain ⟨m, hspec, hfail⟩ : ∃ m, ((replies m).body? ≠ none ∨ m = n) ∧
      ∀ i < m, (replies i).body? = none ∧ i ≠ n :=
    ⟨Nat.find hex, Nat.find_spec hex, fun i hi => by simpa using Nat.find_min hex hi⟩
  have hle : m ≤ n := le_of_not_gt fun hlt => (hfail n hlt).2 rfl
  have hcast : (m + 1 : ℕ∞) ≤ n + 1 := by exact_mod_cast Nat.succ_le_succ hle
  have hfirst := le_firstSuccess fun i hi => (hfail i hi).1
  refine ⟨m, hle, fun i hi => (hfail i hi).1, ?_⟩
  by_cases hbody : (replies m).body? = none
  · obtain rfl : m = n := hspec.resolve_left (not_not_intro hbody)
    have hnext : ((m + 1 : Nat) + 1 : ℕ∞) ≤ firstSuccess replies := le_firstSuccess fun i hi =>
      (Nat.lt_succ_iff_lt_or_eq.1 hi).elim (fun hlt => (hfail i hlt).1) fun heq => heq ▸ hbody
    have hlt : (m + 1 : ℕ∞) < firstSuccess replies := by
      exact_mod_cast (ENat.add_one_le_iff (by simp)).1 hnext
    exact ⟨(min_eq_right hlt.le).symm, fun _ => ⟨rfl, hlt⟩, fun hsome => absurd hbody hsome⟩
  · have heq := le_antisymm hfirst (firstSuccess_le hbody)
    exact ⟨by rw [← heq, min_eq_left hcast], fun hnone => absurd hnone hbody, fun _ => heq ▸ hcast⟩

end First

section Fetch

variable {url} {w : World} {settings : Setting} {config : FetchConfig} {m n : Nat}

/-- What the last request leaves of a text that is asked for. -/
theorem fetch_of_last (hconfig : FetchConfig.ofSettings settings = .ok config)
    (hn : config.retries = n) (hm : m ≤ n) (hpauses : m ≤ 1024)
    (hfail : ∀ j < m, (config.reply w url j).body? = none)
    (hlast : (config.reply w url m).body? = none → m = n ∨ m = 1024) :
    (w.fetch url settings).1 = (config.reply w url m).body?.elim
        (.error (if m = n then (config.reply w url m).fault url else FetchConfig.overflow))
        (.ok ∘ some) ∧
      (w.fetch url settings).2.events =
        w.events ++ .opened config.timeout :: config.exchange url 0 m := by
  have hrounds : (config.retries + 1).toNat = n + 1 := by omega
  obtain ⟨w', hloop, hevents⟩ := config.fetchUpTo_of_last url (i := 0) (n := n)
    (w := w.note (.opened config.timeout)) rfl hm (by omega) hfail
    fun hnone => (hlast hnone).imp_right (Nat.zero_add m).trans
  rw [World.fetch, hconfig]
  dsimp only
  rw [hrounds, hloop]
  exact ⟨rfl, hevents.trans (List.append_assoc _ _ _)⟩

end Fetch

/-- A world with these replies for one address. -/
def worldServing (replies : List Reply) : World :=
  { home := default, routes := [("http://a", replies)] }

/-- Settings with a number of retries, and without pauses. -/
def retrySettings (n : Int) : Setting :=
  .table (Table.ofList [("timeout", .integer 1), ("retries", .integer n), ("backoff", .integer 0)])

end LineScript
