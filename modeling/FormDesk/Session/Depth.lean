/-
The state of edit sessions (`SessionState`): idle, or so many sessions deep around
one edit share. The share exists exactly while a session is open; it is handed
back by the `leave` that closes the outermost session (`Exit`, here `Leaving`).

A session cannot have depth zero: the state holds the number of sessions that
are nested in the outermost one. That number stops growing at the largest
64-bit depth.
-/
import FormDesk.Data.Limit
import FormDesk.Model.Share

namespace FormDesk

/-- The largest depth of sessions, 2^64 - 1. -/
def maxDepth : Nat := sizeLimit - 1

/-- Whether edit sessions are open, and how many. -/
inductive Sessions where
  | idle
  /-- The outermost session and `inner` nested ones are open, around the edit share `share`. -/
  | active (inner : Nat) (share : Share)
  deriving DecidableEq, Repr, Inhabited

/-- What leaving a session comes to. -/
inductive Leaving where
  /-- Sessions around it are still open, `depth` of them. -/
  | nested (depth : Nat)
  /-- It was the outermost one; its share is to be given back. -/
  | outermost (share : Share)
  /-- No session was open. -/
  | underflow
  deriving DecidableEq, Repr

namespace Sessions

/-- How many sessions are open. -/
def depth : Sessions → Nat
  | idle => 0
  | active inner _ => inner + 1

/-- Whether a session is open. -/
def isActive : Sessions → Bool
  | idle => false
  | active .. => true

/-- The edit share of the open session. -/
def share? : Sessions → Option Share
  | idle => none
  | active _ share => some share

/-- The outermost session around a share. -/
def opened (share : Share) : Sessions := active 0 share

/-- One session deeper; none when idle. -/
def nest? : Sessions → Option Sessions
  | idle => none
  | active inner share => some (active (min (inner + 1) (maxDepth - 1)) share)

/-- One session less: what that comes to, and the state afterwards. -/
def leave : Sessions → Leaving × Sessions
  | idle => (.underflow, idle)
  | active 0 share => (.outermost share, idle)
  | active (inner + 1) share => (.nested (inner + 1), active inner share)

end Sessions

/-! ## Words of moves -/

/-- A move of the session state by itself. -/
inductive SessionMove where
  /-- The outermost session opens around a new share. -/
  | start
  | nest
  | leave
  deriving DecidableEq, Repr

/-- What a move answers. -/
inductive SessionAnswer where
  | started
  | nested (entered : Bool)
  | left (exit : Leaving)
  deriving DecidableEq, Repr

/-- Makes one move; `next` is the number of the share that a start takes. -/
def Sessions.move (next : Nat) (s : Sessions) : SessionMove → SessionAnswer × Nat × Sessions
  | .start => (.started, next + 1, .opened ⟨next, .edit⟩)
  | .nest => match s.nest? with
    | some deeper => (.nested true, next, deeper)
    | none => (.nested false, next, s)
  | .leave => let (exit, after) := s.leave
    (.left exit, next, after)

/-- Makes moves one after another, with each one's answer and the state after it. -/
def Sessions.trail (next : Nat) (s : Sessions) :
    List SessionMove → List (SessionAnswer × Sessions)
  | [] => []
  | move :: rest =>
    let (answer, next, after) := s.move next move
    (answer, after) :: after.trail next rest

end FormDesk
