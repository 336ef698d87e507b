import Chis.Base.Interleave

/-!
# The rate limiter

`internal/middleware/ratelimit.go`. Every request increments a counter in Redis, whose key names an
address and a minute, and passes while the counter is at most 100.
-/

namespace Chis.Api

open Program

/-! ### The address of a request -/

/-- What the rate limiter reads of an `http.Request`. A header that is absent reads as the empty
text. -/
structure Connection where
  /-- The header `X-Forwarded-For`. -/
  forwardedFor : String
  /-- The header `X-Real-Ip`. -/
  realIp : String
  /-- `r.RemoteAddr`. -/
  remoteAddr : String
deriving DecidableEq

/-- `unicode.IsSpace`. -/
def isSpace (c : Char) : Bool :=
  c ∈ ['\t', '\n', '\x0b', '\x0c', '\r', ' ', '\u0085', '\u00a0', '\u1680', '\u2028', '\u2029',
    '\u202f', '\u205f', '\u3000'] || ('\u2000' ≤ c && c ≤ '\u200a')

/-- `strings.TrimSpace`. -/
def trimSpace (cs : List Char) : List Char :=
  ((cs.dropWhile isSpace).reverse.dropWhile isSpace).reverse

/-- The host of `net.SplitHostPort`, which refuses an address without a port, with more colons than
one outside brackets, or with a bracket out of place. -/
def splitHost (hostport : String) : Option String :=
  let cs := hostport.toList
  let port := (cs.reverse.takeWhile (· ≠ ':')).reverse
  let before := ((cs.reverse.dropWhile (· ≠ ':')).drop 1).reverse
  if ':' ∉ cs then none
  else
    match before with
    | '[' :: rest =>
      let host := rest.takeWhile (· ≠ ']')
      if rest = host ++ [']'] ∧ '[' ∉ host ++ port ∧ ']' ∉ port then some (String.ofList host)
      else none
    | host =>
      if ':' ∈ host ∨ '[' ∈ cs ∨ ']' ∈ cs then none else some (String.ofList host)

/-- `extractIP`; `ratelimit.go:43`. -/
def extractIP (r : Connection) : String :=
  let first := trimSpace (r.forwardedFor.toList.takeWhile (· ≠ ','))
  if first ≠ [] then String.ofList first
  else if r.realIp ≠ "" then String.ofList (trimSpace r.realIp.toList)
  else
    match splitHost r.remoteAddr with
    | none => r.remoteAddr
    | some host => host

example : extractIP ⟨" 10.0.0.1 , 10.0.0.2", "", "[::1]:8080"⟩ = "10.0.0.1" := rfl

example : extractIP ⟨" , 10.0.0.2", "", "[::1]:8080"⟩ = "::1" := rfl

/-! ### The middleware -/

/-- What the rate limiter asks of the outside. -/
inductive LimitOp
  /-- `time.Now().Unix()`. -/
  | now
  /-- `INCR`. -/
  | incr (key : String)
  /-- `EXPIRE` after a number of seconds. -/
  | expire (key : String) (seconds : Nat)
  /-- The next handler serves the request. -/
  | next
  /-- `http.StatusTooManyRequests`. -/
  | tooManyRequests

/-- What it is answered. -/
@[reducible] def LimitOp.Res : LimitOp → Type
  | .now => Int
  | .incr _ => Except Unit Nat
  | .expire _ _ => Unit
  | .next => Unit
  | .tooManyRequests => Unit

/-- A program of the rate limiter. -/
abbrev Limiting := Prog LimitOp LimitOp.Res

/-- Ask for one of them. -/
def LimitOp.call (o : LimitOp) : Limiting o.Res := Prog.call o

/-- The key of an address in a minute. -/
def limitKey (ip : String) (minute : Int) : String := "rl:" ++ ip ++ ":" ++ toString minute

/-- `RateLimit`; `ratelimit.go:15`. A division of Go rounds towards zero. -/
def rateLimit (r : Connection) : Limiting Unit := do
  let now : Int ← LimitOp.now.call
  let key := limitKey (extractIP r) (now.tdiv 60)
  match ← (LimitOp.incr key).call with
  | .error _ => LimitOp.next.call
  | .ok (count : Nat) =>
    if count = 1 then (LimitOp.expire key 120).call
    if 100 < count then LimitOp.tooManyRequests.call else LimitOp.next.call

end Chis.Api
