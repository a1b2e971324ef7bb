import XLArig.Pool.Names

/-!
# XLArig.Pool.Reload

Whether a pool is the same once the configuration was written and read again.

What is lost is what a mode leaves out, and what was read of an address that is none:
`reloads_iff` says which pools keep all that they have.
-/

namespace XLArig

/-! ## Addresses -/

theorem Url.parse_url (x : Json) : empty.parse (Json.ofCString (empty.parse x.text).url).text =
    if (empty.parse x.text).url = none then empty else empty.parse x.text := by
  split
  · next hnone =>
    rw [hnone]
    rfl
  · next hsome => rw [url_parse rfl hsome, Json.text_ofCString]

namespace ProxyUrl

theorem host_of_isValid {t : CString} (h : (⟨empty.parse t⟩ : ProxyUrl).isValid = true) :
    (empty.parse t).host ≠ none := by
  intro hnone
  have hport : (empty.parse t).port = 0 := Url.port_parse hnone
  unfold isValid at h
  simp [hport] at h

/-- A port alone. -/
def ofPort (port : UInt16) : ProxyUrl := ⟨{ empty.toUrl with port }⟩

theorem ofJSON_port (port : UInt16) : ofJSON (.int port.toNat) = ofPort port := by
  have hlt := port.toNat_lt
  unfold ofJSON
  dsimp only
  rw [if_pos (by omega)]
  have hport : UInt16.ofNat ((port.toNat : Int) % 2 ^ 16).toNat = port := by
    rw [← UInt16.toNat_inj, UInt16.toNat_ofNat']
    omega
  rw [hport]
  rfl

/-- What is no text is read as a port, or as no proxy. -/
theorem ofJSON_cases (x : Json) : (∃ text, x = .string text) ∨ (∃ port, ofJSON x = ofPort port) := by
  cases x with
  | string text => exact .inl ⟨text, rfl⟩
  | int n =>
      right
      unfold ofJSON
      dsimp only
      split
      · exact ⟨_, rfl⟩
      · exact ⟨0, rfl⟩
  | null | bool _ | double _ | array _ | object _ => exact .inr ⟨0, rfl⟩

/-- A proxy is written if it can be used. -/
theorem ofJSON_toJSON (x : Json) :
    ofJSON (ofJSON x).toJSON = if (ofJSON x).isValid then ofJSON x else empty := by
  split
  · next hvalid =>
    unfold toJSON
    rw [hvalid, Bool.not_true, if_neg Bool.false_ne_true]
    obtain ⟨text, rfl⟩ | ⟨port, hport⟩ := ofJSON_cases x
    · have hhost := host_of_isValid (t := some (Json.cstr text)) hvalid
      have hurl : (ofJSON (.string text)).url = some (Json.cstr text) :=
        Url.url_parse_of_host rfl hhost
      have hsome : (ofJSON (.string text)).host.isSome = true := Option.isSome_iff_ne_none.mpr hhost
      rw [if_pos hsome, hurl]
      show (⟨empty.parse (some (Json.cstr (Json.cstr text)))⟩ : ProxyUrl) = _
      rw [Json.cstr_cstr]
      rfl
    · rw [hport, if_neg (show ¬ (ofPort port).host.isSome = true from Bool.false_ne_true)]
      exact ofJSON_port port
  · next hinvalid =>
    unfold toJSON
    rw [if_pos (by simpa using hinvalid)]
    rfl

end ProxyUrl

namespace Pool

theorem readKeepAlive_toJSON (x : Json) :
    readKeepAlive (keepAliveToJSON (readKeepAlive x)) = readKeepAlive x := by
  have hrange : 0 ≤ readKeepAlive x ∧ readKeepAlive x < 2 ^ 31 := by
    unfold readKeepAlive kKeepAliveTimeout
    split
    · split <;> omega
    · split <;> omega
    · omega
  generalize readKeepAlive x = k at hrange
  unfold keepAliveToJSON
  split
  · next h =>
    obtain rfl | rfl := h
    · rfl
    · rfl
  · unfold readKeepAlive
    dsimp only
    rw [if_pos ⟨by omega, hrange.2⟩, max_eq_left hrange.1]

/-! ## Members -/

section

variable [Features] (p : Pool)

def daemonKeys : List (List UInt8) :=
  [bytes "algo", bytes "coin", bytes "url", bytes "user", bytes "enabled", bytes "tls",
    bytes "tls-fingerprint", bytes "daemon", bytes "socks5", bytes "daemon-poll-interval"]

def poolKeys : List (List UInt8) :=
  [bytes "algo", bytes "coin", bytes "url", bytes "user", bytes "pass", bytes "rig-id",
    bytes "nicehash", bytes "keepalive", bytes "enabled", bytes "tls", bytes "tls-fingerprint",
    bytes "daemon", bytes "socks5", bytes "self-select", bytes "submit-to-origin"]

theorem keys_members : p.members.map Prod.fst = if p.mode = .DAEMON then daemonKeys else poolKeys := by
  unfold members
  split <;> simp_all [daemonKeys, poolKeys]

theorem nodup_members : (p.members.map Prod.fst).Nodup := by
  rw [keys_members]
  split
  · exact of_decide_eq_true (by decide +kernel)
  · exact of_decide_eq_true (by decide +kernel)

variable {p} {key : List UInt8} {value : Json}

theorem getValue_toJSON (h : (key, value) ∈ p.members) : p.toJSON.getValue key = value :=
  Json.getValue_of_mem (nodup_members p) h

theorem getValue_toJSON_daemon (hmode : p.mode = .DAEMON) (h : key ∉ daemonKeys) :
    p.toJSON.getValue key = .null := by
  refine Json.getValue_of_not_mem ?_
  rwa [keys_members, if_pos hmode]

theorem getValue_toJSON_pool (hmode : p.mode ≠ .DAEMON) (h : key ∉ poolKeys) :
    p.toJSON.getValue key = .null := by
  refine Json.getValue_of_not_mem ?_
  rwa [keys_members, if_neg hmode]

theorem getString_toJSON (h : (key, value) ∈ p.members) : p.toJSON.getString key = value.text := by
  rw [Json.getString_eq, getValue_toJSON h]

omit [Features] in
/-- A string of the configuration. -/
theorem text_getString {o : Json} : (Json.ofCString (o.getString key)).text = o.getString key := by
  rw [Json.getString_eq, Json.text_ofCString]

theorem getBool_toJSON {b : Bool} (h : (key, .bool b) ∈ p.members) (defaultValue : Bool) :
    p.toJSON.getBool key defaultValue = b := by
  unfold Json.getBool
  rw [getValue_toJSON h]

end

/-! ## What is read again -/

section

variable [Features] {o : Json}

theorem ofJSON_of_isValid (h : (readUrl o).isValid = true) : ofJSON o =
    { algorithm := .parse (o.getString (bytes "algo"))
      submitToOrigin := (readDaemon o).isValid && o.getBool (bytes "submit-to-origin") false
      coin := .parse (o.getString (bytes "coin"))
      keepAlive := readKeepAlive (o.getValue (bytes "keepalive"))
      mode :=
        if (readDaemon o).isValid then .SELF_SELECT
        else if o.getBool (bytes "daemon") false then .DAEMON
        else .POOL
      proxy := .ofJSON (o.getValue (bytes "socks5"))
      enabled := o.getBool (bytes "enabled") true
      nicehash := o.getBool (bytes "nicehash") false || isNicehashHost (readUrl o)
      tls := o.getBool (bytes "tls") false || (readUrl o).tls
      fingerprint := o.getString (bytes "tls-fingerprint")
      password := o.getString (bytes "pass")
      rigId := o.getString (bytes "rig-id")
      user := o.getString (bytes "user")
      pollInterval := o.getUint64Or (bytes "daemon-poll-interval") kDefaultPollInterval
      daemon := readDaemon o
      url := readUrl o } := by
  unfold ofJSON
  dsimp only
  rw [h, Bool.not_true, if_neg Bool.false_ne_true]

/-- `q` is `p` but for what is left out. -/
structure Reloaded (p q : Pool) : Prop where
  algorithm : q.algorithm = p.algorithm
  submitToOrigin : q.submitToOrigin = p.submitToOrigin
  coin : q.coin = p.coin
  keepAlive : q.keepAlive = if p.mode = .DAEMON then 0 else p.keepAlive
  mode : q.mode = p.mode
  proxy : q.proxy = if p.proxy.isValid then p.proxy else .empty
  enabled : q.enabled = p.enabled
  nicehash : q.nicehash = if p.mode = .DAEMON then isNicehashHost p.url else p.nicehash
  tls : q.tls = p.tls
  fingerprint : q.fingerprint = p.fingerprint
  password : q.password = if p.mode = .DAEMON then none else p.password
  rigId : q.rigId = if p.mode = .DAEMON then none else p.rigId
  user : q.user = p.user
  pollInterval : q.pollInterval = if p.mode = .DAEMON then p.pollInterval else kDefaultPollInterval
  daemon : q.daemon = if p.mode = .DAEMON ∨ p.daemon.url = none then .empty else p.daemon
  url : q.url = p.url

omit [Features] in
theorem url_ne_none {x : Json} (h : (Url.empty.parse x.text).isValid = true) :
    (Url.empty.parse x.text).url ≠ none := by
  have hhost : (Url.empty.parse x.text).host ≠ none := by
    intro hnone
    simp [Url.isValid, hnone] at h
  rw [Url.url_parse_of_host rfl hhost]
  intro hnone
  rw [hnone] at hhost
  exact hhost rfl

/-- The address itself is never lost. -/
theorem readUrl_toJSON (h : (readUrl o).isValid = true) :
    readUrl (ofJSON o).toJSON = readUrl o := by
  have hurl : (ofJSON o).url = readUrl o := by rw [ofJSON_of_isValid h]
  have hmem : (bytes "url", Json.ofCString (readUrl o).url) ∈ (ofJSON o).members := by
    simp [members, hurl]
  have hread : readUrl o = Url.empty.parse (o.getValue (bytes "url")).text := by
    rw [readUrl, Json.getString_eq]
  rw [readUrl, getString_toJSON hmem]
  rw [hread] at h ⊢
  rw [Url.parse_url, if_neg (url_ne_none h)]

theorem daemon_ofJSON (h : (readUrl o).isValid = true) :
    (ofJSON o).daemon = Url.empty.parse (o.getValue (bytes "self-select")).text := by
  rw [ofJSON_of_isValid h]
  show readDaemon o = _
  rw [readDaemon, Json.getString_eq]

/-- That of the daemon is lost where it is not written, and where no more than a scheme was
read of it. -/
theorem readDaemon_toJSON (h : (readUrl o).isValid = true) : readDaemon (ofJSON o).toJSON =
    if (ofJSON o).mode = .DAEMON ∨ (ofJSON o).daemon.url = none then .empty
    else (ofJSON o).daemon := by
  by_cases hmode : (ofJSON o).mode = .DAEMON
  · have hkey : bytes "self-select" ∉ daemonKeys := by decide +kernel
    rw [if_pos (.inl hmode), readDaemon, Json.getString_eq, getValue_toJSON_daemon hmode hkey]
    rfl
  · have hmem : (bytes "self-select", Json.ofCString (ofJSON o).daemon.url) ∈ (ofJSON o).members := by
      simp [members, hmode]
    rw [readDaemon, getString_toJSON hmem, daemon_ofJSON h, Url.parse_url]
    simp [hmode]

theorem mode_ofJSON (h : (readUrl o).isValid = true) : (ofJSON o).mode =
    if (ofJSON o).daemon.isValid then .SELF_SELECT
    else if o.getBool (bytes "daemon") false then .DAEMON
    else .POOL := by
  rw [ofJSON_of_isValid h]

theorem isValid_daemon (h : (readUrl o).isValid = true) :
    (ofJSON o).daemon.isValid = true ↔ (ofJSON o).mode = .SELF_SELECT := by
  rw [mode_ofJSON h]
  split
  · simp_all
  · split <;> simp_all

theorem isValid_daemon_toJSON (h : (readUrl o).isValid = true) :
    (readDaemon (ofJSON o).toJSON).isValid = true ↔ (ofJSON o).mode = .SELF_SELECT := by
  rw [readDaemon_toJSON h, ← isValid_daemon h]
  split
  · next hlost =>
    have hinvalid : ¬ (ofJSON o).daemon.isValid = true := by
      intro hvalid
      obtain hmode | hnone := hlost
      · rw [(isValid_daemon h).mp hvalid] at hmode
        contradiction
      · rw [daemon_ofJSON h] at hvalid hnone
        exact url_ne_none hvalid hnone
    exact iff_of_false (by decide) hinvalid
  · rfl

/-- A pool that is read, written and read again. -/
theorem reloaded (h : (readUrl o).isValid = true) :
    Reloaded (ofJSON o) (ofJSON (ofJSON o).toJSON) := by
  have hp := ofJSON_of_isValid h
  have hq := ofJSON_of_isValid (o := (ofJSON o).toJSON) (by rwa [readUrl_toJSON h])
  have hself := isValid_daemon_toJSON h
  constructor
  case algorithm =>
    have hmem : (bytes "algo", (ofJSON o).algorithm.toJSON) ∈ (ofJSON o).members := by simp [members]
    refine (congrArg algorithm hq).trans ?_
    show Algorithm.parse ((ofJSON o).toJSON.getString (bytes "algo")) = _
    rw [getString_toJSON hmem, hp, Algorithm.parse_toJSON]
  case coin =>
    have hmem : (bytes "coin", (ofJSON o).coin.toJSON) ∈ (ofJSON o).members := by simp [members]
    refine (congrArg coin hq).trans ?_
    show Coin.parse ((ofJSON o).toJSON.getString (bytes "coin")) = _
    rw [getString_toJSON hmem, Coin.parse_toJSON]
  case submitToOrigin =>
    refine (congrArg submitToOrigin hq).trans ?_
    show ((readDaemon (ofJSON o).toJSON).isValid && _) = _
    by_cases hmode : (ofJSON o).mode = .SELF_SELECT
    · have hmem : (bytes "submit-to-origin", .bool (ofJSON o).submitToOrigin) ∈ (ofJSON o).members := by
        simp [members, hmode]
      rw [hself.mpr hmode, getBool_toJSON hmem, Bool.true_and]
    · have hsubmit : (ofJSON o).submitToOrigin = false := by
        have hinvalid := mt (isValid_daemon h).mp hmode
        rw [hp] at hinvalid ⊢
        simp [show ¬ (readDaemon o).isValid = true from hinvalid]
      rw [Bool.eq_false_iff.mpr (mt hself.mp hmode), hsubmit, Bool.false_and]
  case keepAlive =>
    refine (congrArg keepAlive hq).trans ?_
    show readKeepAlive ((ofJSON o).toJSON.getValue (bytes "keepalive")) = _
    split
    · next hmode =>
      have hkey : bytes "keepalive" ∉ daemonKeys := by decide +kernel
      rw [getValue_toJSON_daemon hmode hkey]
      rfl
    · next hmode =>
      have hmem : (bytes "keepalive", keepAliveToJSON (ofJSON o).keepAlive) ∈ (ofJSON o).members := by
        simp [members, hmode]
      rw [getValue_toJSON hmem, hp, readKeepAlive_toJSON]
  case mode =>
    have hmem : (bytes "daemon", .bool ((ofJSON o).mode = .DAEMON)) ∈ (ofJSON o).members := by
      simp [members]
    refine (congrArg mode hq).trans ?_
    show (if (readDaemon (ofJSON o).toJSON).isValid then _
      else if (ofJSON o).toJSON.getBool (bytes "daemon") false then _ else _) = _
    rw [getBool_toJSON hmem, mode_ofJSON h]
    split <;> split <;> simp_all
  case proxy =>
    have hmem : (bytes "socks5", (ofJSON o).proxy.toJSON) ∈ (ofJSON o).members := by simp [members]
    refine (congrArg proxy hq).trans ?_
    show ProxyUrl.ofJSON ((ofJSON o).toJSON.getValue (bytes "socks5")) = _
    rw [getValue_toJSON hmem, hp, ProxyUrl.ofJSON_toJSON]
  case enabled =>
    have hmem : (bytes "enabled", .bool (ofJSON o).enabled) ∈ (ofJSON o).members := by simp [members]
    refine (congrArg enabled hq).trans ?_
    show (ofJSON o).toJSON.getBool (bytes "enabled") true = _
    rw [getBool_toJSON hmem]
  case nicehash =>
    refine (congrArg nicehash hq).trans ?_
    show ((ofJSON o).toJSON.getBool (bytes "nicehash") false
      || isNicehashHost (readUrl (ofJSON o).toJSON)) = _
    rw [readUrl_toJSON h]
    split
    · next hmode =>
      have hkey : bytes "nicehash" ∉ daemonKeys := by decide +kernel
      rw [Json.getBool, getValue_toJSON_daemon hmode hkey, hp]
      rfl
    · next hmode =>
      have hmem : (bytes "nicehash", .bool (ofJSON o).nicehash) ∈ (ofJSON o).members := by
        simp [members, hmode]
      rw [getBool_toJSON hmem, hp]
      simp
  case tls =>
    have hmem : (bytes "tls", .bool (ofJSON o).isTLS) ∈ (ofJSON o).members := by simp [members]
    refine (congrArg tls hq).trans ?_
    show ((ofJSON o).toJSON.getBool (bytes "tls") false || (readUrl (ofJSON o).toJSON).tls) = _
    rw [getBool_toJSON hmem, readUrl_toJSON h, hp, isTLS]
    simp
  case fingerprint =>
    have hmem : (bytes "tls-fingerprint", Json.ofCString (ofJSON o).fingerprint) ∈
        (ofJSON o).members := by simp [members]
    refine (congrArg fingerprint hq).trans ?_
    show (ofJSON o).toJSON.getString (bytes "tls-fingerprint") = _
    rw [getString_toJSON hmem, hp]
    exact text_getString
  case password =>
    refine (congrArg password hq).trans ?_
    show (ofJSON o).toJSON.getString (bytes "pass") = _
    split
    · next hmode =>
      have hkey : bytes "pass" ∉ daemonKeys := by decide +kernel
      rw [Json.getString_eq, getValue_toJSON_daemon hmode hkey]
      rfl
    · next hmode =>
      have hmem : (bytes "pass", Json.ofCString (ofJSON o).password) ∈ (ofJSON o).members := by
        simp [members, hmode]
      rw [getString_toJSON hmem, hp]
      exact text_getString
  case rigId =>
    refine (congrArg rigId hq).trans ?_
    show (ofJSON o).toJSON.getString (bytes "rig-id") = _
    split
    · next hmode =>
      have hkey : bytes "rig-id" ∉ daemonKeys := by decide +kernel
      rw [Json.getString_eq, getValue_toJSON_daemon hmode hkey]
      rfl
    · next hmode =>
      have hmem : (bytes "rig-id", Json.ofCString (ofJSON o).rigId) ∈ (ofJSON o).members := by
        simp [members, hmode]
      rw [getString_toJSON hmem, hp]
      exact text_getString
  case user =>
    have hmem : (bytes "user", Json.ofCString (ofJSON o).user) ∈ (ofJSON o).members := by
      simp [members]
    refine (congrArg user hq).trans ?_
    show (ofJSON o).toJSON.getString (bytes "user") = _
    rw [getString_toJSON hmem, hp]
    exact text_getString
  case pollInterval =>
    refine (congrArg pollInterval hq).trans ?_
    show (ofJSON o).toJSON.getUint64Or (bytes "daemon-poll-interval") kDefaultPollInterval = _
    unfold Json.getUint64Or
    by_cases hmode : (ofJSON o).mode = .DAEMON
    · have hmem : (bytes "daemon-poll-interval", .int (ofJSON o).pollInterval.toNat) ∈
          (ofJSON o).members := by
        simp [members, hmode]
      have hlt := (ofJSON o).pollInterval.toNat_lt
      rw [getValue_toJSON hmem, if_pos hmode]
      dsimp only
      rw [if_pos (by omega), Int.toNat_natCast, UInt64.ofNat_toNat]
    · have hkey : bytes "daemon-poll-interval" ∉ poolKeys := by decide +kernel
      rw [getValue_toJSON_pool hmode hkey, if_neg hmode]
  case daemon => exact (congrArg daemon hq).trans (readDaemon_toJSON h)
  case url =>
    refine (congrArg url hq).trans ?_
    show readUrl (ofJSON o).toJSON = _
    rw [readUrl_toJSON h, hp]

/-! ## What is not lost -/

omit [Features] in
theorem readKeepAlive_eq_zero {x : Json} : readKeepAlive x = 0 ↔
    x ≠ .bool true ∧ ∀ n : Int, 0 < n → n < 2 ^ 31 → x ≠ .int n := by
  unfold readKeepAlive kKeepAliveTimeout
  cases x with
  | int n =>
      simp only [ne_eq, reduceCtorEq, not_false_eq_true, true_and, Json.int.injEq]
      constructor
      · rintro hzero m hpos hlt rfl
        rw [if_pos (by omega)] at hzero
        omega
      · intro hnot
        have hn := hnot n
        split <;> omega
  | bool b => cases b <;> simp
  | null | double _ | string _ | array _ | object _ => simp

omit [Features] in
theorem pollInterval_eq_default :
    o.getUint64Or (bytes "daemon-poll-interval") kDefaultPollInterval = kDefaultPollInterval ↔
      ∀ n : Int, 0 ≤ n → n < 2 ^ 64 → o.getValue (bytes "daemon-poll-interval") = .int n →
        n = 1000 := by
  have htoNat : kDefaultPollInterval.toNat = 1000 := rfl
  unfold Json.getUint64Or
  cases o.getValue (bytes "daemon-poll-interval") with
  | int n =>
      simp only [Json.int.injEq]
      constructor
      · rintro hread m hnonneg hlt rfl
        rw [if_pos ⟨hnonneg, hlt⟩, ← UInt64.toNat_inj, htoNat, UInt64.toNat_ofNat'] at hread
        omega
      · intro hdefault
        split
        · next hrange =>
          rw [hdefault n hrange.1 hrange.2 rfl]
          rfl
        · rfl
  | null | bool _ | double _ | string _ | array _ | object _ => simp

/-- A pool that gets its jobs from a daemon. -/
def IsDaemon (o : Json) : Prop := ¬ (readDaemon o).isValid ∧ o.getBool (bytes "daemon") false = true

/-- What must not have been set, for what is set to be kept. -/
structure Survives (o : Json) : Prop where
  proxy : (ProxyUrl.ofJSON (o.getValue (bytes "socks5"))).isValid = true ∨
    ProxyUrl.ofJSON (o.getValue (bytes "socks5")) = .empty
  pass : IsDaemon o → o.getString (bytes "pass") = none
  rigId : IsDaemon o → o.getString (bytes "rig-id") = none
  nicehash : IsDaemon o → o.getBool (bytes "nicehash") false = true →
    isNicehashHost (readUrl o) = true
  keepalive : IsDaemon o → o.getValue (bytes "keepalive") ≠ .bool true ∧
    ∀ n : Int, 0 < n → n < 2 ^ 31 → o.getValue (bytes "keepalive") ≠ .int n
  selfSelect : IsDaemon o ∨ (readDaemon o).url = none → readDaemon o = .empty
  pollInterval : ¬ IsDaemon o → ∀ n : Int, 0 ≤ n → n < 2 ^ 64 →
    o.getValue (bytes "daemon-poll-interval") = .int n → n = 1000

theorem mode_eq_daemon (h : (readUrl o).isValid = true) :
    (ofJSON o).mode = .DAEMON ↔ IsDaemon o := by
  rw [ofJSON_of_isValid h, IsDaemon]
  show (if _ then _ else _) = _ ↔ _
  split
  · simp_all
  · split <;> simp_all

omit [Features] in
/-- What is left out must be what is read of nothing. -/
theorem Reloaded.eq_iff {p q : Pool} (hr : Reloaded p q) : q = p ↔
    (p.proxy.isValid = true ∨ p.proxy = .empty) ∧
    (p.mode = .DAEMON → p.password = none ∧ p.rigId = none ∧
      p.nicehash = isNicehashHost p.url ∧ p.keepAlive = 0) ∧
    (p.mode = .DAEMON ∨ p.daemon.url = none → p.daemon = .empty) ∧
    (¬ p.mode = .DAEMON → p.pollInterval = kDefaultPollInterval) := by
  constructor
  · rintro rfl
    refine ⟨?_, fun hmode => ⟨?_, ?_, ?_, ?_⟩, fun hlost => ?_, fun hmode => ?_⟩
    · by_cases hvalid : q.proxy.isValid = true
      · exact .inl hvalid
      · exact .inr (hr.proxy.trans (if_neg hvalid))
    · exact hr.password.trans (if_pos hmode)
    · exact hr.rigId.trans (if_pos hmode)
    · exact hr.nicehash.trans (if_pos hmode)
    · exact hr.keepAlive.trans (if_pos hmode)
    · exact hr.daemon.trans (if_pos hlost)
    · exact hr.pollInterval.trans (if_neg hmode)
  · rintro ⟨hproxy, hdaemonMode, hdaemon, hpoll⟩
    obtain ⟨hr1, hr2, hr3, hr4, hr5, hr6, hr7, hr8, hr9, hr10, hr11, hr12, hr13, hr14, hr15, hr16⟩ :=
      hr
    obtain ⟨_, _, _, _, _, _, _, _, _, _, _, _, _, _, _, _⟩ := q
    dsimp only at hr1 hr2 hr3 hr4 hr5 hr6 hr7 hr8 hr9 hr10 hr11 hr12 hr13 hr14 hr15 hr16
    have hkeep : (if p.mode = .DAEMON then 0 else p.keepAlive) = p.keepAlive :=
      ite_eq_right_iff.mpr fun hmode => (hdaemonMode hmode).2.2.2.symm
    have hnice : (if p.mode = .DAEMON then isNicehashHost p.url else p.nicehash) = p.nicehash :=
      ite_eq_right_iff.mpr fun hmode => (hdaemonMode hmode).2.2.1.symm
    have hrig : (if p.mode = .DAEMON then none else p.rigId) = p.rigId :=
      ite_eq_right_iff.mpr fun hmode => (hdaemonMode hmode).2.1.symm
    have hpass : (if p.mode = .DAEMON then none else p.password) = p.password :=
      ite_eq_right_iff.mpr fun hmode => (hdaemonMode hmode).1.symm
    rw [hr1, hr2, hr3, hr4, hr5, hr6, hr7, hr8, hr9, hr10, hr11, hr12, hr13, hr14, hr15, hr16, hkeep,
      hnice, hrig, hpass, ite_eq_left_iff.mpr fun hinvalid => (hproxy.resolve_left hinvalid).symm,
      ite_eq_right_iff.mpr fun hlost => (hdaemon hlost).symm,
      ite_eq_left_iff.mpr fun hmode => (hpoll hmode).symm]

omit [Features] in
theorem flag_eq_implied_iff {flag implied : Bool} :
    (flag || implied) = implied ↔ (flag = true → implied = true) := by
  cases flag <;> cases implied <;> decide

theorem reloaded_eq_iff (h : (readUrl o).isValid = true) :
    ofJSON (ofJSON o).toJSON = ofJSON o ↔ Survives o := by
  have hmode := mode_eq_daemon h
  have hp := ofJSON_of_isValid h
  have hproxy : (ofJSON o).proxy = .ofJSON (o.getValue (bytes "socks5")) := by rw [hp]
  have hpass : (ofJSON o).password = o.getString (bytes "pass") := by rw [hp]
  have hrig : (ofJSON o).rigId = o.getString (bytes "rig-id") := by rw [hp]
  have hnice : (ofJSON o).nicehash = isNicehashHost (ofJSON o).url ↔
      (o.getBool (bytes "nicehash") false = true → isNicehashHost (readUrl o) = true) := by
    rw [hp]
    exact flag_eq_implied_iff
  have hkeep : (ofJSON o).keepAlive = readKeepAlive (o.getValue (bytes "keepalive")) := by rw [hp]
  have hdaemon : (ofJSON o).daemon = readDaemon o := by rw [hp]
  have hpoll : (ofJSON o).pollInterval =
      o.getUint64Or (bytes "daemon-poll-interval") kDefaultPollInterval := by rw [hp]
  rw [(reloaded h).eq_iff, hproxy, hpass, hrig, hnice, hkeep, readKeepAlive_eq_zero, hdaemon,
    hpoll, pollInterval_eq_default, hmode]
  constructor
  · rintro ⟨h1, h2, h3, h4⟩
    exact ⟨h1, fun hd => (h2 hd).1, fun hd => (h2 hd).2.1, fun hd => (h2 hd).2.2.1,
      fun hd => (h2 hd).2.2.2, h3, h4⟩
  · rintro ⟨h1, h2, h3, h4, h5, h6, h7⟩
    exact ⟨h1, fun hd => ⟨h2 hd, h3 hd, h4 hd, h5 hd⟩, h6, h7⟩

/-- **What is written is read again.**  A valid pool that is written and read is what it was
but for what its mode does not use; it is the same pool just when nothing was set of that. -/
theorem reloads (h : (ofJSON o).isValid = true) :
    Reloaded (ofJSON o) (ofJSON (ofJSON o).toJSON) ∧
      ((ofJSON (ofJSON o).toJSON).isEqual (ofJSON o) = true ∧
        (ofJSON (ofJSON o).toJSON).submitToOrigin = (ofJSON o).submitToOrigin ↔ Survives o) := by
  have hvalid : (readUrl o).isValid = true := by
    by_contra hinvalid
    have hofUrl : ofJSON o = ofUrl (readUrl o) := by
      unfold ofJSON
      dsimp only
      rw [if_pos (by simpa using hinvalid)]
    rw [hofUrl] at h
    exact hinvalid h
  refine ⟨reloaded hvalid, ?_⟩
  rw [← reloaded_eq_iff hvalid, isEqual_iff]
  constructor
  · rintro ⟨heq, hsubmit⟩
    rwa [← hsubmit] at heq
  · intro heq
    rw [heq]
    exact ⟨rfl, rfl⟩

end

/-- A pool with a password, a keepalive and a proxy. -/
def sample : Json :=
  .object [(bytes "url", .string (bytes "pool.example:3333")), (bytes "user", .string (bytes "u")),
    (bytes "pass", .string (bytes "x")), (bytes "keepalive", .int 30),
    (bytes "socks5", .string (bytes "socks5://127.0.0.1:9050"))]

theorem sample_reloads : (ofJSON (ofJSON sample).toJSON).isEqual (ofJSON sample) = true ∧
    (ofJSON (ofJSON sample).toJSON).submitToOrigin = (ofJSON sample).submitToOrigin := by
  have hpool : ¬ IsDaemon sample := by
    rintro ⟨-, hdaemon⟩
    exact absurd hdaemon (by decide +kernel)
  refine (reloads (by decide +kernel)).2.mpr ?_
  constructor
  case proxy => exact .inl (by decide +kernel)
  case selfSelect => exact fun _ => by decide +kernel
  case pollInterval =>
    intro _ n _ _ h
    have hnull : sample.getValue (bytes "daemon-poll-interval") = .null := by rfl
    rw [hnull] at h
    contradiction
  all_goals exact fun hdaemon => absurd hdaemon hpool

/-- **A daemon loses its password.** -/
theorem loses_password :
    let o := Json.object [(bytes "url", .string (bytes "127.0.0.1:11898")),
      (bytes "daemon", .bool true), (bytes "pass", .string (bytes "x"))]
    (ofJSON o).isValid = true ∧ (ofJSON o).password = some (bytes "x") ∧
      (ofJSON (ofJSON o).toJSON).password = none ∧
      (ofJSON (ofJSON o).toJSON).isEqual (ofJSON o) = false := by
  decide +kernel

end Pool

end XLArig
