import XLArig.CpuConfig
import XLArig.RxConfig

/-!
# XLArig.BaseConfig

`base/kernel/config/BaseConfig` and `core/config/Config`: the configuration file, and how it is
read and written.

Reading has two effects: the members of the object it is called on, and the settings of the
log, which belong to the whole process.  What the processor and the build offer is given, and
whether certificates can be had.
-/

namespace XLArig

namespace Json

/-- `IsBool` and `GetBool`. -/
def bool? : Json → Option Bool
  | bool b => some b
  | _ => none

/-- `IsString` and `GetString`. -/
def string? : Json → Option (List UInt8)
  | string s => some (cstr s)
  | _ => none

/-- `Json::isEmpty`. -/
def isEmpty : Json → Bool
  | object members => members.isEmpty
  | _ => true

end Json

namespace Base

/-! ## Readers -/

/-- `IJsonReader`: the documents of a `JsonChain`, of which the last is asked first.  A
`JsonReader` has one. -/
abbrev Reader := List Json

namespace Reader

/-- What `f` makes of a member, in the first document where it is something. -/
def find? {α : Type} (r : Reader) (key : List UInt8) (f : Json → Option α) : Option α :=
  r.reverse.findSome? fun doc => if doc.hasMember key then f (doc.getValue key) else none

def getBool (r : Reader) (key : List UInt8) (defaultValue : Bool) : Bool :=
  (r.find? key Json.bool?).getD defaultValue

def getString (r : Reader) (key : List UInt8) : CString := r.find? key Json.string?

def getInt (r : Reader) (key : List UInt8) (defaultValue : Int) : Int :=
  (r.find? key Json.int?).getD defaultValue

def getUint (r : Reader) (key : List UInt8) (defaultValue : UInt32) : UInt32 :=
  (r.find? key Json.uint?).getD defaultValue

def getValue (r : Reader) (key : List UInt8) : Json := (r.find? key some).getD .null

def getObject (r : Reader) (key : List UInt8) : Json :=
  (r.find? key fun v => if v.isObject then some v else none).getD .null

def getArray (r : Reader) (key : List UInt8) : Option (List Json) :=
  r.find? key fun v => match v with
    | .array elements => some elements
    | _ => none

/-- `JsonReader(value)`, which finds nothing in a value that is empty. -/
def ofValue (value : Json) : Reader := if value.isEmpty then [] else [value]

/-- `JsonChain::addFile` to a new chain; `none` is a file that cannot be opened or parsed. -/
def ofFile : Option Json → Reader
  | some doc => if doc.isEmpty then [] else [doc]
  | none => []

end Reader

/-! ## Settings -/

/-- The static members of `Log`. -/
structure Log where
  colors : Bool
  verbose : UInt32
  deriving DecidableEq

/-- `BaseConfig::setVerbose`. -/
def Log.setVerbose (log : Log) (value : Json) : Log :=
  match value with
  | .bool b => { log with verbose := if b then 1 else 0 }
  | value =>
      match value.uint? with
      | some n => { log with verbose := n }
      | none => log

/-- `Title`. -/
structure Title where
  enabled : Bool
  value : CString

namespace Title

def ofJSON : Json → Title
  | .bool b => ⟨b, none⟩
  | .string s => ⟨true, some (Json.cstr s)⟩
  | _ => ⟨true, none⟩

def toJSON (t : Title) : Json :=
  if t.enabled && t.value.isSome then .ofCString t.value else .bool t.enabled

end Title

/-- `Http`. -/
structure Http where
  enabled : Bool
  restricted : Bool
  host : CString
  token : CString
  port : UInt16

namespace Http

def kLocalhost : CString := some (bytes "127.0.0.1")

def new : Http := ⟨false, true, kLocalhost, none, 0⟩

/-- `setPort`. -/
def setPort (h : Http) (port : Int) : Http :=
  if 0 ≤ port ∧ port ≤ 65536 then { h with port := .ofNat (port.toNat % 2 ^ 16) } else h

/-- `load`. -/
def load (h : Http) (http : Json) : Http :=
  if !http.isObject then h
  else
    { h with
      enabled := http.getBool (bytes "enabled") false
      restricted := http.getBool (bytes "restricted") true
      host := (http.getString (bytes "host")).orElse fun _ => kLocalhost
      token := http.getString (bytes "access-token") }.setPort (http.getInt (bytes "port") 0)

def toJSON (h : Http) : Json :=
  .object [(bytes "enabled", .bool h.enabled), (bytes "host", .ofCString h.host),
    (bytes "port", .int h.port.toNat), (bytes "access-token", .ofCString h.token),
    (bytes "restricted", .bool h.restricted)]

end Http

/-- `TlsConfig`. -/
structure TlsConfig where
  enabled : Bool
  protocols : UInt32
  cert : CString
  key : CString
  ciphers : CString
  cipherSuites : CString
  dhparam : CString

namespace TlsConfig

def new : TlsConfig := ⟨true, 0, none, none, none, none, none⟩

/-- `Versions`, with their names. -/
def versions : List (List UInt8 × UInt32) :=
  [(bytes "TLSv1", 1), (bytes "TLSv1.1", 2), (bytes "TLSv1.2", 4), (bytes "TLSv1.3", 8)]

/-- `setProtocols`. -/
def readProtocols (protocols : CString) : UInt32 :=
  (CString.split 0x20 (protocols.getD [])).foldl (fun mask value =>
    mask ||| ((versions.find? fun x => x.1 == value).map Prod.snd).getD 0) 0

/-- `isValid`. -/
def isValid (t : TlsConfig) : Bool := !t.cert.isEmpty && !t.key.isEmpty

/-- `generate`; `gen` says whether there are certificates for a name, or can be. -/
def generate (gen : CString → Bool) (t : TlsConfig) (commonName : CString) : TlsConfig :=
  if gen commonName then
    { t with
      cert := some (bytes "cert.pem")
      key := some (bytes "cert_key.pem")
      enabled := true }
  else t

/-- `TlsConfig(value)`. -/
def ofJSON (gen : CString → Bool) (value : Json) : TlsConfig :=
  match value with
  | .object _ =>
      let key := value.getString (bytes "cert_key")
      let t : TlsConfig :=
        { enabled := value.getBool (bytes "enabled") true
          protocols := readProtocols (value.getString (bytes "protocols"))
          cert := value.getString (bytes "cert")
          key := if key.isNone then value.getString (bytes "cert-key") else key
          ciphers := value.getString (bytes "ciphers")
          cipherSuites := value.getString (bytes "ciphersuites")
          dhparam := value.getString (bytes "dhparam") }
      if t.enabled && !t.isValid then t.generate gen (value.getString (bytes "gen")) else t
  | .bool b => if b then new.generate gen none else { new with enabled := false }
  | .string s => new.generate gen (some (Json.cstr s))
  | _ => { new with enabled := false }

def protocolsToJSON (t : TlsConfig) : Json :=
  if t.protocols = 0 then .null
  else .string ((bytes " ").intercalate
    ((versions.filter fun x => t.protocols &&& x.2 ≠ 0).map Prod.fst))

def toJSON (t : TlsConfig) : Json :=
  .object [(bytes "enabled", .bool t.enabled), (bytes "protocols", t.protocolsToJSON),
    (bytes "cert", .ofCString t.cert), (bytes "cert_key", .ofCString t.key),
    (bytes "ciphers", .ofCString t.ciphers), (bytes "ciphersuites", .ofCString t.cipherSuites),
    (bytes "dhparam", .ofCString t.dhparam)]

end TlsConfig

/-- `Pools`, with the two settings of donation. -/
structure PoolSettings extends Pools where
  donateLevel : Int
  proxyDonate : Int

namespace PoolSettings

def new : PoolSettings := ⟨⟨[], 5, 5⟩, 0, 1⟩

/-- The four setters keep what they have where a value is out of range. -/
def within (low high : Int) (value old : Int) : Int :=
  if low ≤ value ∧ value ≤ high then value else old

variable [Features]

/-- `load`. -/
def load (p : PoolSettings) (r : Reader) : PoolSettings :=
  match r.getArray (bytes "pools") with
  | none => { p with data := [] }
  | some elements =>
      { data := ((elements.filter Json.isObject).map Pool.ofJSON).filter Pool.isValid
        donateLevel := within 0 99 (r.getInt (bytes "donate-level") 0) p.donateLevel
        proxyDonate := within 0 2 (r.getInt (bytes "donate-over-proxy") 1) p.proxyDonate
        retries := within 1 1000 (r.getInt (bytes "retries") 0) p.retries
        retryPause := within 1 3600 (r.getInt (bytes "retry-pause") 0) p.retryPause }

/-- The members of `toJSON`, in their order. -/
def members (p : PoolSettings) : List (List UInt8 × Json) :=
  [(bytes "donate-level", .int p.donateLevel), (bytes "donate-over-proxy", .int p.proxyDonate),
    (bytes "pools", .array (p.data.map Pool.toJSON)), (bytes "retries", .int p.retries),
    (bytes "retry-pause", .int p.retryPause)]

end PoolSettings

/-! ## The configuration -/

/-- `BaseConfig` and what `Config` has besides. -/
structure Config where
  autoSave : Bool
  background : Bool
  dryRun : Bool
  syslog : Bool
  upgrade : Bool
  watch : Bool
  http : Http
  pools : PoolSettings
  apiId : CString
  apiWorkerId : CString
  fileName : CString
  logFile : CString
  userAgent : CString
  title : Title
  printTime : UInt32
  tls : TlsConfig
  pauseOnBattery : Bool
  idleTime : UInt32
  cpu : Cpu.Config
  rx : RxConfig
  dmi : Bool

/-- What the configuration is read with. -/
structure Host where
  cpu : Cpu.CpuInfo
  rx : RxPlatform
  gen : CString → Bool

namespace Config

variable (host : Host)

/-- A fresh configuration. -/
def new : Config where
  autoSave := true
  background := false
  dryRun := false
  syslog := false
  upgrade := false
  watch := true
  http := .new
  pools := .new
  apiId := none
  apiWorkerId := none
  fileName := none
  logFile := none
  userAgent := none
  title := ⟨true, none⟩
  printTime := 60
  tls := .new
  pauseOnBattery := false
  idleTime := 0
  cpu := .new
  rx := .new host.rx
  dmi := true

def kIdleTime : UInt32 := 60

/-- `setIdleTime`. -/
def readIdleTime (idleTime : UInt32) : Json → UInt32
  | .bool b => if b then kIdleTime else 0
  | value => value.uint?.getD idleTime

/-- The identity of the API, if there is an object about it. -/
def readApi (c : Config) (api : Json) : Config :=
  if api.isObject then
    { c with
      apiId := api.getString (bytes "id")
      apiWorkerId := api.getString (bytes "worker-id") }
  else c

variable [Features]

/-- `BaseConfig::read`, with the log as it leaves it, and whether a pool is active. -/
def readBase (c : Config) (log : Log) (r : Reader) (fileName : CString) : (Config × Log) × Bool :=
  let c := { c with fileName }
  if r.isEmpty then ((c, log), false)
  else
    let c := { c with
      autoSave := r.getBool (bytes "autosave") c.autoSave
      background := r.getBool (bytes "background") c.background
      dryRun := r.getBool (bytes "dry-run") c.dryRun
      syslog := r.getBool (bytes "syslog") c.syslog
      watch := r.getBool (bytes "watch") c.watch
      logFile := r.getString (bytes "log-file")
      userAgent := r.getString (bytes "user-agent")
      printTime := min (r.getUint (bytes "print-time") c.printTime) 3600
      title := .ofJSON (r.getValue (bytes "title"))
      tls := .ofJSON host.gen (r.getValue (bytes "tls")) }
    let log := { log with colors := r.getBool (bytes "colors") log.colors }
    let log := log.setVerbose (r.getValue (bytes "verbose"))
    let c := c.readApi (r.getObject (bytes "api"))
    let c := { c with
      http := c.http.load (r.getObject (bytes "http"))
      pools := c.pools.load r }
    ((c, log), decide (0 < c.pools.active))

/-- `Config::read`. -/
def read (c : Config) (log : Log) (r : Reader) (fileName : CString) : (Config × Log) × Bool :=
  let ((c, log), ok) := c.readBase host log r fileName
  if !ok then ((c, log), false)
  else
    let (rx, found) := c.rx.read host.rx (r.getValue (bytes "randomx"))
    let c := { c with
      pauseOnBattery := r.getBool (bytes "pause-on-battery") c.pauseOnBattery
      idleTime := readIdleTime c.idleTime (r.getValue (bytes "pause-on-active"))
      cpu := c.cpu.read host.cpu (r.getValue (bytes "cpu"))
      rx
      upgrade := c.upgrade || !found
      dmi := r.getBool (bytes "dmi") c.dmi }
    ((c, log), true)

/-- `pause-on-active` is a switch where it can be one; `idleTime` is in milliseconds for it. -/
def idleTimeToJSON (c : Config) : Json :=
  if c.idleTime = 0 ∨ c.idleTime = kIdleTime then .bool (c.idleTime * 1000 > 0)
  else .int c.idleTime.toNat

/-- `getJSON`. -/
def getJSON (c : Config) (log : Log) : Json :=
  .object ([(bytes "api", .object
      [(bytes "id", .ofCString c.apiId), (bytes "worker-id", .ofCString c.apiWorkerId)]),
    (bytes "http", c.http.toJSON), (bytes "autosave", .bool c.autoSave),
    (bytes "background", .bool c.background), (bytes "colors", .bool log.colors),
    (bytes "title", c.title.toJSON), (bytes "randomx", c.rx.toJSON host.rx),
    (bytes "cpu", c.cpu.toJSON), (bytes "log-file", .ofCString c.logFile)] ++
    c.pools.members ++
    [(bytes "print-time", .int c.printTime.toNat), (bytes "dmi", .bool c.dmi),
      (bytes "syslog", .bool c.syslog), (bytes "tls", c.tls.toJSON),
      (bytes "user-agent", .ofCString c.userAgent), (bytes "verbose", .int log.verbose.toNat),
      (bytes "watch", .bool c.watch), (bytes "pause-on-battery", .bool c.pauseOnBattery),
      (bytes "pause-on-active", c.idleTimeToJSON)])

/-- `isWatch`. -/
def isWatch (c : Config) : Bool := c.watch && c.fileName.isSome

end Config

end Base

end XLArig
