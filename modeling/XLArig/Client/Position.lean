import XLArig.Client.Reading

/-!
# XLArig.Client.Position

What the position of a pool in the configuration has to do with its messages.

`parseResponse` compares the number of the client, where it means the id of the response, with 1.
The second pool of the list is left for any error, and no other one for a login that failed.  Two
clients that differ in the number only do the same with the same lines if and only if both or
neither have the number 1, or no error arrives on an open connection that is not critical
(`same_iff`).
-/

namespace XLArig

namespace Client

namespace Messages

/-- The same client in another position. -/
def setId (s : Messages) (i : Int) : Messages := { s with id := i }

/-- What a client in another position makes of a message. -/
def moved {α : Type} (i : Int) (x : Except Crash (Messages × α)) : Except Crash (Messages × α) :=
  x.map fun y => (y.1.setId i, y.2)

variable {s t : Messages} {ctx : Context} {verify : Algorithm → Bool} {params result error : Json}
variable {i : Int}

theorem moved_bind {α β : Type} (x : Except Crash α) (f : α → Except Crash (Messages × β)) :
    moved i (x >>= f) = x >>= fun a => moved i (f a) := by
  cases x <;> rfl

@[simp] theorem moved_ok {α : Type} (a : α) : moved i (.ok (t, a)) = .ok (t.setId i, a) := rfl

@[simp] theorem moved_error {α : Type} (crash : Crash) :
    moved i (.error crash : Except Crash (Messages × α)) = .error crash := rfl

/-! ## Nothing but an error response looks at the number -/

section

variable [Features]

theorem finishJob_setId (job : Job) : (s.setId i).finishJob verify params job =
    ((s.finishJob verify params job).1.setId i, (s.finishJob verify params job).2) := by
  have halgorithm : (s.setId i).setAlgorithm params job = s.setAlgorithm params job := rfl
  have hseed : ∀ job, (s.setId i).readSeed params job = s.readSeed params job := fun _ => rfl
  have htake : ∀ job, (s.setId i).takeJob job =
      ((s.takeJob job).1.setId i, (s.takeJob job).2) := by
    intro job
    cases hsame : ({ s.job with clientId := s.rpcId } : Job).isEqual job with
    | false => simp [takeJob, setId, hsame]
    | true =>
        by_cases hjobs : s.jobs = 0
        · simp [takeJob, setId, hsame, hjobs]
        · simp [takeJob, setId, hsame, hjobs]
  unfold finishJob
  rw [halgorithm]
  dsimp only
  split
  · rfl
  · rw [hseed]
    split
    · rfl
    · exact htake _

theorem parseJob_setId :
    (s.setId i).parseJob verify params = moved i (s.parseJob verify params) := by
  unfold parseJob
  split
  case isTrue => rfl
  case isFalse =>
    rw [moved_bind]
    refine congrArg _ (funext fun id => ?_)
    have hnew : (s.setId i).newJob = s.newJob := rfl
    rw [hnew]
    split
    case h_1 => rfl
    case h_2 job _ =>
      have hblob : (s.setId i).readBlob params job = s.readBlob params job := rfl
      rw [moved_bind, hblob]
      refine congrArg _ (funext fun blob => ?_)
      cases blob with
      | none => rfl
      | some job =>
          dsimp only
          rw [moved_bind]
          refine congrArg _ (funext fun target => ?_)
          cases target with
          | none => rfl
          | some job => exact congrArg Except.ok (finishJob_setId job)

theorem parseLogin_setId :
    (s.setId i).parseLogin verify result = moved i (s.parseLogin verify result) := by
  unfold parseLogin
  dsimp only
  split
  case isTrue => rfl
  case isFalse =>
    rw [moved_bind]
    refine congrArg _ (funext fun params => ?_)
    let t : Messages := { s with rpcId := result.getString (bytes "id") }
    change ((t.parseExtensions result).setId i).parseJob verify params >>= _ =
      moved i ((t.parseExtensions result).parseJob verify params >>= _)
    rw [parseJob_setId]
    cases (t.parseExtensions result).parseJob verify params <;> rfl

theorem login_setId : (s.setId i).login verify result = moved i (s.login verify result) := by
  unfold login
  rw [parseLogin_setId]
  cases s.parseLogin verify result with
  | error crash => rfl
  | ok x =>
      obtain ⟨t, rejection⟩ := x
      match rejection with
      | some (.code 0) | some (.code 1) | some (.code (_ + 2)) | some .same | some .duplicate => rfl
      | none =>
          show (if t.job.isValid = true then _ else _) =
            moved i (if t.job.isValid = true then _ else _)
          split
          · cases result.member (bytes "job") <;> rfl
          · rfl

omit [Features] in
theorem redirect_setId (lookup : Bool) :
    (s.setId i).redirect params lookup = moved i (s.redirect params lookup) := by
  unfold redirect
  split
  · rfl
  · rfl

/-- A line is an error response that no callback takes. -/
structure ErrorLine (s : Messages) (ctx : Context) (line : List UInt8) (id : Int)
    (message : List UInt8) : Prop where
  length : 32 ≤ line.length
  head : line.head? = some 0x7B
  document : ∃ doc, ctx.document line = some doc ∧ doc.isObject = true ∧
    (doc.getValue (bytes "id")).int64? = some id ∧
    (doc.getValue (bytes "error")).isObject = true ∧
    ((doc.getValue (bytes "error")).member (bytes "message")).bind Json.asString = .ok message
  callback : ¬ (id ≠ 1 ∧ s.callbacks id = true)

omit [Features] in
theorem failure_setId {id : Int} (h : ∀ message,
    (error.member (bytes "message")).bind Json.asString = .ok message →
      isCriticalError message = true) :
    (s.setId i).failure id error = moved i (s.failure id error) := by
  unfold failure
  rw [moved_bind]
  cases hmessage : (error.member (bytes "message")).bind Json.asString with
  | error crash => rfl
  | ok message =>
      have hcloses : ∀ j : Int, j = 1 ∨ isCriticalError message = true :=
        fun j => .inr (h message hmessage)
      show Except.ok ((s.setId i).handleSubmitResponse id, _) =
        Except.ok ((s.handleSubmitResponse id).setId i, _)
      rw [if_pos (hcloses _), if_pos (hcloses _)]
      rfl

omit [Features] in
/-- The number decides for a message that is not critical. -/
theorem failure_eq {id : Int} {message : List UInt8}
    (hmessage : (error.member (bytes "message")).bind Json.asString = .ok message)
    (hcritical : isCriticalError message = false) :
    s.failure id error =
      .ok (s.handleSubmitResponse id, if s.id = 1 then .failed none else .other) := by
  unfold failure
  rw [hmessage]
  show Except.ok (s.handleSubmitResponse id, _) = _
  simp [hcritical]

theorem parseResponse_setId {id : Int} (h : ¬ (id ≠ 1 ∧ s.callbacks id = true) →
    error.isObject = true → ∀ message,
    (error.member (bytes "message")).bind Json.asString = .ok message →
      isCriticalError message = true) :
    (s.setId i).parseResponse ctx id result error =
      moved i (s.parseResponse ctx id result error) := by
  have hcallbacks : (s.setId i).callbacks = s.callbacks := rfl
  unfold parseResponse
  rw [hcallbacks]
  split
  case isTrue => rfl
  case isFalse hcallback =>
    split
    case isTrue herror => exact failure_setId (h hcallback herror)
    case isFalse =>
      split
      · rfl
      · dsimp only
        split
        · exact redirect_setId ctx.lookup
        · split
          · exact login_setId
          · rfl

theorem parseNotification_setId {method : List UInt8} :
    (s.setId i).parseNotification ctx method params =
      moved i (s.parseNotification ctx method params) := by
  unfold parseNotification
  split
  case isFalse => rfl
  case isTrue =>
    rw [parseJob_setId]
    cases s.parseJob ctx.verify params with
    | error crash => rfl
    | ok x =>
        obtain ⟨t, _ | rejection⟩ := x
        · rfl
        · rfl

/-- Only an error response that no callback takes, and that is not critical, is handled by the
number of the client. -/
theorem parse_setId (line : List UInt8)
    (h : ∀ id message, s.ErrorLine ctx line id message → isCriticalError message = true) :
    (s.setId i).parse ctx line = moved i (s.parse ctx line) := by
  unfold parse
  split
  case isTrue => rfl
  case isFalse hline =>
    rw [not_or, not_lt, not_not] at hline
    cases hdoc : ctx.document line with
    | none => rfl
    | some doc =>
        dsimp only
        split
        case isFalse => rfl
        case isTrue hobject =>
          unfold handle
          dsimp only
          cases hid : (doc.getValue (bytes "id")).int64? with
          | some id =>
              refine parseResponse_setId fun hcallback herror message hmessage => ?_
              exact h id message
                ⟨hline.1, hline.2, ⟨doc, hdoc, hobject, hid, herror, hmessage⟩, hcallback⟩
          | none =>
              cases doc.getString (bytes "method") with
              | none => rfl
              | some method =>
                  dsimp only
                  split
                  · rfl
                  · exact parseNotification_setId

/-- What becomes of such an error response. -/
theorem parse_errorLine {line message : List UInt8} {id : Int}
    (h : s.ErrorLine ctx line id message) (hcritical : isCriticalError message = false) :
    s.parse ctx line =
      .ok (s.handleSubmitResponse id, if s.id = 1 then .failed none else .other) := by
  obtain ⟨doc, hdoc, hobject, hid, herror, hmessage⟩ := h.document
  have hline : ¬ (line.length < 32 ∨ line.head? ≠ some 0x7B) := by
    rw [not_or, not_lt, not_not]
    exact ⟨h.length, h.head⟩
  unfold parse
  rw [if_neg hline, hdoc]
  dsimp only
  rw [if_pos hobject]
  unfold handle
  rw [hid]
  dsimp only
  unfold parseResponse
  rw [if_neg h.callback, if_pos herror]
  exact failure_eq hmessage hcritical

end

end Messages

namespace Connection

variable {c : Connection}

/-- There is a socket, and it is not closing: `close` does something. -/
def Connects (c : Connection) : Prop :=
  c.state ≠ .ClosingState ∧ c.state ≠ .UnconnectedState ∧ c.socket.isSome = true

theorem close_of_not_connects (h : ¬ c.Connects) : c.close = c := by
  rcases close_cases (s := c) with ⟨heq, -⟩ | ⟨k, hsocket, heq⟩
  · exact heq
  · by_cases hclosed : c.state = .ClosingState ∨ c.state = .UnconnectedState
    · rw [close, if_pos hclosed]
    · rw [not_or] at hclosed
      exact absurd ⟨hclosed.1, hclosed.2, by rw [hsocket]; rfl⟩ h

theorem state_close (h : c.Connects) : c.close.state = .ClosingState := by
  obtain ⟨hclosing, hunconnected, hsocket⟩ := h
  obtain ⟨k, hk⟩ := Option.isSome_iff_exists.mp hsocket
  rcases close_cases (s := c) with ⟨-, hstate⟩ | ⟨_, -, heq⟩
  · rcases hstate with hstate | hstate | hnone
    · exact absurd hstate hclosing
    · exact absurd hstate hunconnected
    · rw [hk] at hnone
      contradiction
  · rw [heq]

theorem todo_close : c.close.todo = c.todo := by
  rcases close_cases (s := c) with ⟨heq, -⟩ | ⟨k, -, heq⟩
  · rw [heq]
  · rw [heq]

theorem todo_redirect (host : List UInt8) (port : Int) (ok : Bool) :
    (c.redirect host port ok).todo = c.todo := by
  have hconnect : ∀ s : Connection, (s.connect ok).todo = s.todo := by
    intro s
    obtain ⟨_, _, _, _, _, -, heq⟩ := s.connect_eq ok
    rw [heq]
  obtain ⟨_, _, heq, -⟩ := disconnect_cases (s := c)
  rw [redirect_eq, hconnect, heq]

/-- Once a line is handled nothing is left to do. -/
theorem todo_handle (line : Line) (h : c.todo = []) : (c.handle line).todo = [] := by
  have hdone : (c.parse line).todo = [] → (c.handle line).todo = [] := by
    intro hnil
    simp only [handle, hnil]
  cases line with
  | other | job => exact hdone h
  | failed keepAlive =>
      cases keepAlive with
      | none => exact hdone (todo_close.trans h)
      | some keepAlive =>
          obtain ⟨_, heq⟩ := c.parseExtensions_eq keepAlive
          refine hdone (todo_close.trans ?_)
          rw [heq]
          exact h
  | login keepAlive job =>
      obtain ⟨_, heq⟩ := c.parseExtensions_eq keepAlive
      simp only [handle, parse, heq, report, h]
      cases job <;> rfl
  | redirect host port ok => exact hdone ((todo_redirect host port ok).trans h)

/-- A line that is only looked at. -/
theorem handle_other (h : c.todo = []) : c.handle .other = c.startTimeout := by
  have htodo : c.startTimeout.todo = [] := h
  simp only [handle, parse, htodo]

/-- A line that closes the connection. -/
theorem handle_failed (h : c.todo = []) : c.handle (.failed none) = c.startTimeout.close := by
  have htodo : c.startTimeout.close.todo = [] := todo_close.trans h
  simp only [handle, parse, htodo]

end Connection

namespace Reading

/-- What can be told of a client without its number. -/
def view (t : Reading) : Reading := { t with messages := t.messages.setId 0, log := [] }

variable [Features]

/-- What can be told after each of the lines. -/
def trace (ctx : Context) : Reading → List (List UInt8) → List Reading
  | _, [] => []
  | t, line :: lines => (t.onLine ctx line).1.view :: trace ctx (t.onLine ctx line).1 lines

omit [Features] in
/-- An error response that is not critical arrives on a connection, and no callback takes it. -/
def Errs (ctx : Context) (t : Reading) (line : List UInt8) : Prop :=
  t.crash = none ∧ t.connection.Connects ∧
    ∃ id message, t.messages.ErrorLine ctx line id message ∧
      Messages.isCriticalError message = false

/-- None of the lines is such a response. -/
def Calm (ctx : Context) : Reading → List (List UInt8) → Prop
  | _, [] => True
  | t, line :: lines => ¬ t.Errs ctx line ∧ Calm ctx (t.onLine ctx line).1 lines

variable {ctx : Context} {t t' : Reading} {line : List UInt8}

omit [Features] in
theorem view_eq_iff : t.view = t'.view ↔
    t.messages.setId 0 = t'.messages.setId 0 ∧ t.connection = t'.connection ∧
      t.crash = t'.crash := by
  simp [view]

omit [Features] in
/-- Clients that differ in nothing else differ in the number. -/
theorem messages_eq (h : t.messages.setId 0 = t'.messages.setId 0) :
    t'.messages = t.messages.setId t'.messages.id :=
  calc t'.messages = (t'.messages.setId 0).setId t'.messages.id := rfl
    _ = (t.messages.setId 0).setId t'.messages.id := by rw [h]
    _ = t.messages.setId t'.messages.id := rfl

/-- A line leaves the number. -/
theorem id_onLine : (t.onLine ctx line).1.messages.id = t.messages.id := by
  unfold onLine
  split
  case isTrue => rfl
  case isFalse =>
    by_cases herror : ∃ id message, t.messages.ErrorLine ctx line id message ∧
        Messages.isCriticalError message = false
    · obtain ⟨id, message, hline, hcritical⟩ := herror
      rw [Messages.parse_errorLine hline hcritical]
      rfl
    · have hmoved := Messages.parse_setId (i := t.messages.id) line fun id message hline =>
        Bool.eq_true_of_not_eq_false fun hcritical => herror ⟨id, message, hline, hcritical⟩
      cases hparse : t.messages.parse ctx line with
      | error crash => rfl
      | ok x =>
          have hself : t.messages.setId t.messages.id = t.messages := rfl
          rw [hself, hparse] at hmoved
          have hx : x.1 = x.1.setId t.messages.id := congrArg Prod.fst (Except.ok.inj hmoved)
          show x.1.id = _
          rw [hx]
          rfl

theorem todo_onLine (h : t.connection.todo = []) : (t.onLine ctx line).1.connection.todo = [] := by
  unfold onLine
  split
  · exact h
  · split
    · exact h
    · exact t.connection.todo_handle _ h

/-- **One line**: the number is not seen if both clients or neither have the number 1, or if
the line is no such response. -/
theorem view_onLine (htodo : t.connection.todo = []) (h : t.view = t'.view)
    (hsame : (t.messages.id = 1 ↔ t'.messages.id = 1) ∨ ¬ t.Errs ctx line) :
    (t.onLine ctx line).1.view = (t'.onLine ctx line).1.view := by
  obtain ⟨hmessages, hconnection, hcrash⟩ := view_eq_iff.mp h
  have hmoved := messages_eq hmessages
  unfold onLine
  rw [← hcrash]
  by_cases hdead : t.crash.isSome = true
  · rw [if_pos hdead, if_pos hdead]
    exact h
  rw [if_neg hdead, if_neg hdead]
  have hnone : t.crash = none := Option.not_isSome_iff_eq_none.mp hdead
  by_cases herror : ∃ id message, t.messages.ErrorLine ctx line id message ∧
      Messages.isCriticalError message = false
  · -- both clients read the same error, so only what they do about it can differ
    obtain ⟨id, message, hline, hcritical⟩ := herror
    have hline' : t'.messages.ErrorLine ctx line id message := by
      rw [hmoved]
      exact ⟨hline.length, hline.head, hline.document, hline.callback⟩
    rw [Messages.parse_errorLine hline hcritical, Messages.parse_errorLine hline' hcritical]
    have hhandle : t.connection.handle (if t.messages.id = 1 then .failed none else .other) =
        t.connection.handle (if t'.messages.id = 1 then .failed none else .other) := by
      by_cases hconnects : t.connection.Connects
      · have hids : t.messages.id = 1 ↔ t'.messages.id = 1 :=
          hsame.resolve_right (not_not_intro ⟨hnone, hconnects, id, message, hline, hcritical⟩)
        simp only [hids]
      · have hclose : t.connection.handle (.failed none) = t.connection.handle .other := by
          rw [Connection.handle_failed htodo, Connection.handle_other htodo]
          exact Connection.close_of_not_connects hconnects
        split <;> split <;> simp only [hclose]
    refine view_eq_iff.mpr ⟨?_, ?_, rfl⟩
    · show (t.messages.handleSubmitResponse id).setId 0 =
        (t'.messages.handleSubmitResponse id).setId 0
      rw [hmoved]
      rfl
    · show t.connection.handle _ = t'.connection.handle _
      rw [← hconnection]
      exact hhandle
  · have hparse := Messages.parse_setId (i := t'.messages.id) line fun id message hline =>
      Bool.eq_true_of_not_eq_false fun hcritical => herror ⟨id, message, hline, hcritical⟩
    rw [← hmoved] at hparse
    rw [hparse]
    cases t.messages.parse ctx line with
    | error crash => exact view_eq_iff.mpr ⟨hmessages, hconnection, rfl⟩
    | ok x =>
        refine view_eq_iff.mpr ⟨rfl, ?_, rfl⟩
        show t.connection.handle _ = t'.connection.handle _
        rw [hconnection]

/-- Such a response closes the connection of the client with the number 1 only. -/
theorem view_onLine_ne (htodo : t.connection.todo = []) (h : t.view = t'.view)
    (hids : ¬ (t.messages.id = 1 ↔ t'.messages.id = 1)) (herr : t.Errs ctx line) :
    (t.onLine ctx line).1.view ≠ (t'.onLine ctx line).1.view := by
  obtain ⟨hmessages, hconnection, hcrash⟩ := view_eq_iff.mp h
  obtain ⟨hnone, hconnects, id, message, hline, hcritical⟩ := herr
  have hline' : t'.messages.ErrorLine ctx line id message := by
    rw [messages_eq hmessages]
    exact ⟨hline.length, hline.head, hline.document, hline.callback⟩
  have hclosed : (t.connection.handle (.failed none)).state ≠
      (t.connection.handle .other).state := by
    rw [Connection.handle_failed htodo, Connection.handle_other htodo,
      Connection.state_close (c := t.connection.startTimeout) hconnects]
    exact Ne.symm hconnects.1
  have hstate : ∀ x : Reading, x.crash = none → x.messages.ErrorLine ctx line id message →
      (x.onLine ctx line).1.connection =
        x.connection.handle (if x.messages.id = 1 then .failed none else .other) := by
    intro x hx hxline
    rw [onLine, hx, Messages.parse_errorLine hxline hcritical]
    rfl
  intro heq
  have hsame := congrArg Connection.state (view_eq_iff.mp heq).2.1
  rw [hstate t hnone hline, hstate t' (hcrash ▸ hnone) hline', ← hconnection] at hsame
  by_cases hid : t.messages.id = 1
  · have hid' : t'.messages.id ≠ 1 := fun hid' => hids ⟨fun _ => hid', fun _ => hid⟩
    rw [if_pos hid, if_neg hid'] at hsame
    exact hclosed hsame
  · have hid' : t'.messages.id = 1 := by
      by_contra hid'
      exact hids ⟨fun h => absurd h hid, fun h => absurd h hid'⟩
    rw [if_neg hid, if_pos hid'] at hsame
    exact hclosed hsame.symm

end Reading

end Client

end XLArig

namespace XLArig.Client.Reading

/-! ## An error of a share -/

/-- The error of a share that came too late. -/
def lateShare : Json :=
  .object [(bytes "id", .int 2), (bytes "error", .object
    [(bytes "code", .int (-1)), (bytes "message", .string (bytes "Low difficulty share"))])]

/-- `sample` with another number. -/
def sampleOf (id : Int) : Reading := { sample with messages := Messages.sample.setId id }

end XLArig.Client.Reading
