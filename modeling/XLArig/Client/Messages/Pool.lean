import XLArig.Client.Connection.Effect
import XLArig.Client.Messages

/-!
# XLArig.Client.Messages.Pool

The two models of a client agree on its pool.

A line that `Messages.parse` handles is handed on to the connection as a `Line`.  Only a
redirect changes the pool, and both change it alike (`parse_pool`).
-/

namespace XLArig

namespace Client

namespace Connection

variable {c : Connection} {l : Line}

theorem pool_close : c.close.pool = c.pool := by
  obtain ⟨h, -⟩ | ⟨_, -, h⟩ := c.close_cases <;> rw [h]

theorem pool_connect (ok : Bool) : (c.connect ok).pool = c.pool := by
  obtain ⟨_, _, _, _, _, -, h⟩ := c.connect_eq ok
  rw [h]

/-- A line that is no redirect keeps the pool. -/
theorem pool_parse (h : ∀ host port ok, l ≠ .redirect host port ok) : (c.parse l).pool = c.pool := by
  cases l with
  | other | job => rfl
  | failed keepAlive =>
      cases keepAlive with
      | none => exact pool_close
      | some keepAlive =>
          obtain ⟨_, heq⟩ := c.parseExtensions_eq keepAlive
          show (c.startTimeout.parseExtensions keepAlive).close.pool = _
          rw [pool_close, heq]
  | login keepAlive job =>
      obtain ⟨_, heq⟩ := c.parseExtensions_eq keepAlive
      simp only [parse, heq]
      split <;> rfl
  | redirect host port ok => exact absurd rfl (h host port ok)

theorem pool_redirect (host : List UInt8) (port : Int) (ok : Bool) :
    (c.parse (.redirect host port ok)).pool = redirected c.pool host port := by
  show (c.startTimeout.redirect host port ok).pool = _
  rw [redirect_eq, pool_connect]
  rfl

end Connection

namespace Messages

variable [Features] {s t : Messages} {ctx : Context} {params result error : Json} {id : Int}
variable {verify : Algorithm → Bool}

/-- The connection has the pool that the messages are handled with, before and after a
line. -/
def SamePool (s : Messages) (x : Messages × Line) : Prop :=
  ∀ c : Connection, c.pool = s.pool → (c.parse x.2).pool = x.1.pool

omit [Features] in
/-- The pool is kept, and the line is no redirect. -/
theorem samePool_keep {l : Line} (hpool : t.pool = s.pool)
    (hl : ∀ host port ok, l ≠ .redirect host port ok) : s.SamePool (t, l) :=
  fun c hc => (c.pool_parse hl).trans (hc.trans hpool.symm)

theorem pool_finishJob (job : Job) : (s.finishJob verify params job).1.pool = s.pool := by
  unfold finishJob takeJob
  dsimp only
  split
  · rfl
  · split
    · rfl
    · split
      · rfl
      · split <;> rfl

theorem pool_parseJob : Yields (fun x => x.1.pool = s.pool) (s.parseJob verify params) := by
  unfold parseJob
  split
  · exact yields_ok rfl
  · refine yields_bind fun id _ => ?_
    split
    · exact yields_ok rfl
    · refine yields_bind fun blob _ => ?_
      cases blob with
      | none => exact yields_ok rfl
      | some job =>
          refine yields_bind fun target _ => ?_
          cases target with
          | none => exact yields_ok rfl
          | some job => exact yields_ok (pool_finishJob job)

theorem pool_parseLogin : Yields (fun x => x.1.pool = s.pool) (s.parseLogin verify result) := by
  unfold parseLogin
  dsimp only
  split
  · exact yields_ok rfl
  · refine yields_bind fun params _ => yields_bind fun x hx => ?_
    have hpool := pool_parseJob x hx
    exact yields_ok hpool

theorem samePool_login : Yields s.SamePool (s.login verify result) := by
  refine yields_bind fun x hx => ?_
  have hpool := pool_parseLogin x hx
  obtain ⟨t, rejection⟩ := x
  split
  · next heq =>
    obtain ⟨rfl, -⟩ := Prod.mk.inj heq
    exact yields_ok (samePool_keep hpool nofun)
  · next heq =>
    obtain ⟨rfl, -⟩ := Prod.mk.inj heq
    exact yields_ok (samePool_keep hpool nofun)
  · next heq =>
    obtain ⟨rfl, -⟩ := Prod.mk.inj heq
    split
    · exact yields_bind fun _ _ => yields_ok (samePool_keep hpool nofun)
    · exact yields_ok (samePool_keep hpool nofun)

omit [Features] in
theorem samePool_failure : Yields s.SamePool (s.failure id error) := by
  refine yields_bind fun message _ => yields_ok ?_
  split
  · exact samePool_keep rfl nofun
  · exact samePool_keep rfl nofun

omit [Features] in
theorem samePool_redirect (lookup : Bool) : Yields s.SamePool (s.redirect params lookup) := by
  unfold redirect
  split
  · exact yields_error
  · refine yields_ok fun c hc => ?_
    rw [Connection.pool_redirect, hc]
    rfl

theorem samePool_parseResponse : Yields s.SamePool (s.parseResponse ctx id result error) := by
  unfold parseResponse
  split
  · exact yields_ok (samePool_keep rfl nofun)
  · split
    · exact samePool_failure
    · split
      · exact yields_ok (samePool_keep rfl nofun)
      · dsimp only
        split
        · exact samePool_redirect ctx.lookup
        · split
          · exact samePool_login
          · exact yields_ok (samePool_keep rfl nofun)

theorem samePool_handle (doc : Json) : Yields s.SamePool (s.handle ctx doc) := by
  unfold handle
  dsimp only
  split
  · exact samePool_parseResponse
  · split
    · exact yields_ok (samePool_keep rfl nofun)
    · split
      · exact yields_ok (samePool_keep rfl nofun)
      · unfold parseNotification
        split
        · refine yields_bind fun x hx => ?_
          have hpool := pool_parseJob x hx
          obtain ⟨t, _ | rejection⟩ := x
          · exact yields_ok (samePool_keep hpool nofun)
          · exact yields_ok (samePool_keep hpool nofun)
        · exact yields_ok (samePool_keep rfl nofun)

/-- The pool is the same after a line if it was before. -/
theorem parse_pool {line : List UInt8} {l : Line} (h : s.parse ctx line = .ok (t, l))
    (c : Connection) (hc : c.pool = s.pool) : (c.parse l).pool = t.pool := by
  have hall : Yields s.SamePool (s.parse ctx line) := by
    unfold parse
    split
    · exact yields_ok (samePool_keep rfl nofun)
    · split
      · exact yields_ok (samePool_keep rfl nofun)
      · split
        · exact samePool_handle _
        · exact yields_ok (samePool_keep rfl nofun)
  exact hall _ h c hc

end Messages

end Client

end XLArig
