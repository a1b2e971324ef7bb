import XLArig.Client.Connection.Effect
import XLArig.Client.Messages.Crash
import XLArig.LineReader

/-!
# XLArig.Client.Reading

What a client makes of a chunk of bytes: the reader cuts it into lines, and each line
is handled by `Client::parse` and by the connection.

A line may abandon the connection: a rejected job or a critical error closes it, a
redirect begins another one and resets the reader.  The loop of the reader goes on in
either case, so the lines that follow in the chunk are handled too, and what comes after
the last of them goes into the buffer.  `abandoned_iff` says for which chunks nothing
comes of that.
-/

namespace XLArig

namespace Client

/-- The connection is closed, or another one is begun. -/
def Line.abandons : Line → Bool
  | .failed _ | .redirect _ _ _ => true
  | .other | .job | .login _ _ => false

/-- `resolve` is called, which resets the reader. -/
def Line.resets : Line → Bool
  | .redirect _ _ _ => true
  | .other | .failed _ | .job | .login _ _ => false

/-- A line that was handled, with the messages before and after it. -/
structure HandledLine where
  before : Messages
  line : Line
  after : Messages

/-- The line was passed on as a login, as a job, or as the response to a submit. -/
def HandledLine.Passed (h : HandledLine) : Prop :=
  h.line = .job ∨ (∃ keepAlive job, h.line = .login keepAlive job) ∨
    ∃ id, h.before.results id = true ∧ h.after.results id = false

/-- A client that reads.  After a crash nothing more is handled; the newest entry of the
log comes last. -/
structure Reading where
  messages : Messages
  connection : Connection
  crash : Option Crash
  log : List HandledLine

namespace Connection

/-- A line is handled; the job of a login follows its success. -/
def handle (c : Connection) (line : Line) : Connection :=
  let c := c.parse line
  match c.todo with
  | [] => c
  | task :: todo => { c with todo }.proceed task

variable {c : Connection} {line : Line}

/-- A connection that was abandoned is not connected any more. -/
theorem state_parse (hstate : c.state = .ConnectedState) (hsocket : c.socket.isSome = true)
    (h : line.abandons = true) : (c.parse line).state ≠ .ConnectedState := by
  have hclose : ∀ c : Connection, c.state = .ConnectedState → c.socket.isSome = true →
      c.close.state = .ClosingState := by
    intro c hstate hsocket
    obtain ⟨h, hs⟩ := Option.isSome_iff_exists.mp hsocket
    simp [close, setState, hstate, hs]
  cases line with
  | failed keepAlive =>
      cases keepAlive with
      | none =>
          show c.startTimeout.close.state ≠ _
          rw [hclose c.startTimeout hstate hsocket]
          decide
      | some keepAlive =>
          obtain ⟨_, heq⟩ := c.parseExtensions_eq keepAlive
          show (c.startTimeout.parseExtensions keepAlive).close.state ≠ _
          have hkept := hclose (c.startTimeout.parseExtensions keepAlive) (by rw [heq]; exact hstate)
            (by rw [heq]; exact hsocket)
          rw [hkept]
          decide
  | redirect host port ok =>
      show (c.startTimeout.redirect host port ok).state ≠ _
      obtain ⟨_, _, _, _, _, -, heq⟩ := connect_eq (s := { c.startTimeout.disconnect with
        pool := redirected c.startTimeout.pool host port }) ok
      rw [redirect_eq, heq]
      exact SocketState.noConfusion
  | other | job | login _ _ => contradiction

end Connection

namespace Reading

variable [Features]

/-- `onLine`, which calls `Client::parse`; the reader is told of a reset. -/
def onLine (ctx : Context) (t : Reading) (line : List UInt8) : Reading × Bool :=
  if t.crash.isSome then (t, false)
  else
    match t.messages.parse ctx line with
    | .error crash => ({ t with crash := some crash }, false)
    | .ok (messages, l) =>
        ({ t with
          messages
          connection := t.connection.handle l
          log := t.log ++ [⟨t.messages, l, messages⟩] }, l.resets)

/-- No line that comes after one that abandons the connection is one that is passed on. -/
def Harmless (ctx : Context) : (abandoned : Bool) → Messages → List (List UInt8) → Prop
  | _, _, [] => True
  | abandoned, s, line :: lines =>
      match s.parse ctx line with
      | .error _ => True
      | .ok (t, l) => (abandoned = true → ¬ (HandledLine.mk s l t).Passed) ∧
          Harmless ctx (abandoned || l.abandons) t lines

/-- One of the lines is a redirect. -/
def Redirects (ctx : Context) : Messages → List (List UInt8) → Prop
  | _, [] => False
  | s, line :: lines =>
      match s.parse ctx line with
      | .error _ => False
      | .ok (t, l) => l.resets = true ∨ Redirects ctx t lines

variable {t : Reading}

/-- After a crash no line is handled. -/
theorem handAll_crash (ctx : Context) (lines : List (List UInt8)) (h : t.crash.isSome = true) :
    LineReader.handAll (onLine ctx) t lines = t := by
  induction lines with
  | nil => rfl
  | cons line lines ih =>
      have hline : (t.onLine ctx line).1 = t := by rw [onLine, if_pos h]
      rw [LineReader.handAll, List.foldl_cons, hline]
      exact ih

/-- What the lines add to the log: it is harmless if they are, and there is a redirect
in it if one of them is one. -/
theorem handAll_log (ctx : Context) (h : t.crash = none) (lines : List (List UInt8)) :
    ∃ more, (LineReader.handAll (onLine ctx) t lines).log = t.log ++ more ∧
      (∀ abandoned : Bool, (more.Pairwise fun a b => a.line.abandons = true → ¬ b.Passed) ∧
          (abandoned = true → ∀ b ∈ more, ¬ b.Passed) ↔
        Harmless ctx abandoned t.messages lines) ∧
      ((∃ a ∈ more, a.line.resets = true) ↔ Redirects ctx t.messages lines) := by
  induction lines generalizing t with
  | nil => exact ⟨[], by simp [LineReader.handAll], by simp [Harmless], by simp [Redirects]⟩
  | cons line lines ih =>
      simp only [LineReader.handAll, List.foldl_cons, Harmless, Redirects]
      cases hparse : t.messages.parse ctx line with
      | error crash =>
          have hline : (t.onLine ctx line).1 = { t with crash := some crash } := by
            simp [onLine, h, hparse]
          have hcrash : ({ t with crash := some crash } : Reading).crash.isSome = true := rfl
          have hrest := handAll_crash ctx lines hcrash
          rw [LineReader.handAll] at hrest
          rw [hline, hrest]
          exact ⟨[], by simp, by simp, by simp⟩
      | ok x =>
          obtain ⟨s, l⟩ := x
          let t' : Reading := { t with
            messages := s
            connection := t.connection.handle l
            log := t.log ++ [⟨t.messages, l, s⟩] }
          have hline : (t.onLine ctx line).1 = t' := by simp [onLine, h, hparse, t']
          obtain ⟨more, hlog, hpair, hreset⟩ := ih (show t'.crash = none from h)
          have hs : t'.messages = s := rfl
          rw [LineReader.handAll] at hlog
          rw [hs] at hpair hreset
          rw [hline]
          dsimp only
          refine ⟨⟨t.messages, l, s⟩ :: more, by rw [hlog]; simp [t'], ?_, ?_⟩
          · intro abandoned
            rw [← hpair (abandoned || l.abandons)]
            simp only [List.pairwise_cons, List.forall_mem_cons, Bool.or_eq_true]
            grind
          · rw [← hreset]
            simp

end Reading

end Client

end XLArig

namespace XLArig.Client.Reading

/-! ## Two chunks -/

/-- The surroundings of lines that are the texts of these documents. -/
def readingAll (docs : List Json) : Context where
  document line := docs.find? fun doc => doc.write == line
  verify _ := true
  lookup := true

/-- A client that is logged in, and its connection. -/
def sample : Reading where
  messages := .sample
  connection := { Connection.sample false with
    state := .ConnectedState
    socket := some 0
    handles := fun _ => ⟨.opened, false, true, 0⟩
    next := 1 }
  crash := none
  log := []

/-- The notification of a job. -/
def notification (params : Json) : Json :=
  .object [(bytes "jsonrpc", .string (bytes "2.0")), (bytes "method", .string (bytes "job")),
    (bytes "params", params)]

/-- A job with a blob of zeros that is taken. -/
def takenJob : Json :=
  notification (.object [(bytes "job_id", .string (bytes "2")),
    (bytes "blob", .string (List.replicate 152 0x30)), (bytes "target", .string (bytes "01000000")),
    (bytes "algo", .string (bytes "cn/0"))])

/-- A job that is no object. -/
def rejectedJob : Json := notification .null

/-- A redirect. -/
def redirection : Json :=
  .object [(bytes "id", .int 2), (bytes "result", .object
    [(bytes "redirect", .object [(bytes "host", .string (bytes "b")), (bytes "port", .int 3333)])])]

end XLArig.Client.Reading
