import TrojanGo.Geodata.Cache
import TrojanGo.Router.Matching

/-!
# Loading the rules

The values of domain, keyword and full rules are put in lower case, the target of a connection is
not.
-/
namespace TrojanGo.Router

open Tunnel Geodata

/-! ### Geodata -/

structure GeoIP where
  countryCode : Bytes
  cidr : List CIDR

/-- A domain of a list, with the keys of its attributes. -/
structure GeoDomain where
  domain : Domain
  attributes : List Bytes := []

structure GeoSite where
  countryCode : Bytes
  domain : List GeoDomain

/-- What loading uses from outside. -/
structure Libraries extends World where
  unmarshalGeoIP : Bytes → Except Bytes GeoIP
  unmarshalGeoIPList : Bytes → Except Bytes (List GeoIP)
  unmarshalGeoSite : Bytes → Except Bytes GeoSite
  unmarshalGeoSiteList : Bytes → Except Bytes (List GeoSite)
  /-- whether `regexp.Compile` succeeds -/
  compile : Bytes → Bool
  /-- `net.ParseIP` -/
  parseIP : Bytes → Option IP
  /-- whether `freedom.NewClient` succeeds -/
  freedom : Bool

def Libraries.geoipCache (lib : Libraries) : Kind GeoIP where
  called := ascii "country code "
  unmarshal := lib.unmarshalGeoIP
  unmarshalList := lib.unmarshalGeoIPList
  countryCode := GeoIP.countryCode

def Libraries.geositeCache (lib : Libraries) : Kind GeoSite where
  called := ascii "list "
  unmarshal := lib.unmarshalGeoSite
  unmarshalList := lib.unmarshalGeoSiteList
  countryCode := GeoSite.countryCode

/-! ### The configuration -/

structure Config where
  bypass : List Bytes := []
  proxy : List Bytes := []
  block : List Bytes := []
  domainStrategy : Bytes := ascii "as_is"
  defaultPolicy : Bytes := ascii "proxy"
  geoipFilename : Bytes := ascii "geoip.dat"
  geositeFilename : Bytes := ascii "geosite.dat"

structure CodeInfo where
  code : Bytes
  strategy : Policy

/-- The texts with the word in front, without it. A text that is only the word is passed over. -/
def codesOf (word : Bytes) (strategy : Policy) (texts : List Bytes) : List CodeInfo :=
  texts.filterMap fun s =>
    if word.isPrefixOf s ∧ s.drop word.length ≠ [] then some ⟨s.drop word.length, strategy⟩
    else none

/-- `loadCode`. -/
def loadCode (cfg : Config) (word : Bytes) : List CodeInfo :=
  codesOf word .proxy cfg.proxy ++ codesOf word .bypass cfg.bypass ++
    codesOf word .block cfg.block

/-! ### Collecting the rules -/

structure Rules where
  domains : Policy → List Domain := fun _ => []
  cidrs : Policy → List CIDR := fun _ => []

def Rules.addDomains (r : Rules) (policy : Policy) (domains : List Domain) : Rules :=
  { r with domains := fun p => if p = policy then r.domains p ++ domains else r.domains p }

def Rules.addCidrs (r : Rules) (policy : Policy) (cidrs : List CIDR) : Rules :=
  { r with cidrs := fun p => if p = policy then r.cidrs p ++ cidrs else r.cidrs p }

/-- Why there is no client. -/
inductive Failure where
  | rawClient
  | unknownStrategy (text : Bytes)
  | invalidRegex (code : Bytes)
  | invalidCIDR (code : Bytes)
  | invalidCIDRIP (code : Bytes)
  | invalidPrefix
  | panicked
  | hangs
  deriving DecidableEq

variable (lib : Libraries)

/-- A lookup that fails is reported, and the rule is left out. -/
def geoipRules (filename : Bytes) (cache : Cache GeoIP) (r : Rules) :
    List CodeInfo → Except Failure Rules
  | [] => .ok r
  | c :: infos =>
    match lib.geoipCache.unmarshalCached lib.toWorld cache ⟨filename, c.code⟩ with
    | (.panicked, _) => .error .panicked
    | (.hangs, _) => .error .hangs
    | (.returned (.error _), cache) => geoipRules filename cache r infos
    | (.returned (.ok geoip), cache) =>
      geoipRules filename cache (r.addCidrs c.strategy geoip.cidr) infos

/-- The list and the attribute that a code names; `none` if it is invalid. -/
def wanted (code : Bytes) : Option (Bytes × Bytes) :=
  match index code [64] with
  | none => some (code, [])
  | some 0 => none
  | some k => if [64].isSuffixOf code then none else some (code.take k, code.drop (k + 1))

/-- The domains with an attribute, one for each of its attributes with that key. -/
def withAttribute (attrWanted : Bytes) (list : List GeoDomain) : List Domain :=
  list.flatMap fun d =>
    (d.attributes.filter fun key => lib.equalFold attrWanted key).map fun _ => d.domain

def geositeRules (filename : Bytes) (cache : Cache GeoSite) (r : Rules) :
    List CodeInfo → Except Failure Rules
  | [] => .ok r
  | c :: infos =>
    match wanted c.code with
    | none => geositeRules filename cache r infos
    | some (code, attrWanted) =>
      match lib.geositeCache.unmarshalCached lib.toWorld cache ⟨filename, code⟩ with
      | (.panicked, _) => .error .panicked
      | (.hangs, _) => .error .hangs
      | (.returned (.error _), cache) => geositeRules filename cache r infos
      | (.returned (.ok geosite), cache) =>
        let domains :=
          if attrWanted ≠ [] then withAttribute lib attrWanted geosite.domain
          else geosite.domain.map GeoDomain.domain
        geositeRules filename cache (r.addDomains c.strategy domains) infos

/-- The rules of one type whose values are put in lower case. -/
def textRules (type : RuleType) (r : Rules) (infos : List CodeInfo) : Rules :=
  infos.foldl (fun r info => r.addDomains info.strategy [⟨type, lib.toLower info.code⟩]) r

def regexRules (r : Rules) : List CodeInfo → Except Failure Rules
  | [] => .ok r
  | info :: infos =>
    if lib.compile info.code then
      regexRules (r.addDomains info.strategy [⟨.regex, info.code⟩]) infos
    else .error (.invalidRegex info.code)

/-- `strconv.ParseInt`, for 32 bits. -/
def parseInt32 (text : Bytes) : Option Int :=
  (atoi UInt8.toNat text).filter fun n => -2 ^ 31 ≤ n ∧ n < 2 ^ 31

def parseCIDR (code : Bytes) : Except Failure CIDR :=
  match code.splitOn 47 with
  | [address, length] =>
    match lib.parseIP address with
    | none => .error (.invalidCIDRIP code)
    | some ip =>
      match parseInt32 length with
      | none => .error .invalidPrefix
      -- the number is converted to 32 bits without a sign
      | some n => .ok ⟨ip, (n % 2 ^ 32).toNat⟩
  | _ => .error (.invalidCIDR code)

def cidrRules (r : Rules) : List CodeInfo → Except Failure Rules
  | [] => .ok r
  | info :: infos =>
    match parseCIDR lib info.code with
    | .error e => .error e
    | .ok cidr => cidrRules (r.addCidrs info.strategy [cidr]) infos

def strategyOf (text : Bytes) : Option Strategy :=
  if text ∈ [ascii "as_is", ascii "as-is", ascii "asis"] then some .asIs
  else if text ∈ [ascii "ip_if_non_match", ascii "ip-if-non-match", ascii "ipifnonmatch"] then
    some .ipIfNonMatch
  else if text ∈ [ascii "ip_on_demand", ascii "ip-on-demand", ascii "ipondemand"] then
    some .ipOnDemand
  else none

def policyOf (text : Bytes) : Option Policy :=
  if text = ascii "proxy" then some .proxy
  else if text = ascii "bypass" then some .bypass
  else if text = ascii "block" then some .block
  else none

/-- The rules of a configuration, in the order in which they are collected. -/
def loadRules (cfg : Config) : Except Failure Rules := do
  let r ← geoipRules lib cfg.geoipFilename noEntries {} (loadCode cfg (ascii "geoip:"))
  let r ← geositeRules lib cfg.geositeFilename noEntries r (loadCode cfg (ascii "geosite:"))
  let r := textRules lib .domain r (loadCode cfg (ascii "domain:"))
  let r := textRules lib .plain r (loadCode cfg (ascii "keyword:"))
  let r ← regexRules lib r (loadCode cfg (ascii "regex:"))
  let r ← regexRules lib r (loadCode cfg (ascii "regexp:"))
  let r := textRules lib .full r (loadCode cfg (ascii "full:"))
  cidrRules lib r (loadCode cfg (ascii "cidr:"))

/-- `NewClient`. The message for an unknown policy names the strategy. -/
def newClient (cfg : Config) : Except Failure Client :=
  if ¬ lib.freedom then .error .rawClient
  else
    match strategyOf (lib.toLower cfg.domainStrategy) with
    | none => .error (.unknownStrategy cfg.domainStrategy)
    | some domainStrategy =>
      match policyOf (lib.toLower cfg.defaultPolicy) with
      | none => .error (.unknownStrategy cfg.domainStrategy)
      | some defaultPolicy =>
        match loadRules lib cfg with
        | .error e => .error e
        | .ok r => .ok { domains := r.domains, cidrs := r.cidrs, defaultPolicy, domainStrategy }

/-! ### Where the domain rules come from -/

/-- A property of all domain rules. -/
def Rules.All (holds : Domain → Prop) (r : Rules) : Prop := ∀ p, ∀ d ∈ r.domains p, holds d

section All

variable {lib} {holds : Domain → Prop} {r r' : Rules}

theorem Rules.All.addDomains (all : r.All holds) (policy : Policy) {domains : List Domain}
    (new : ∀ d ∈ domains, holds d) : (r.addDomains policy domains).All holds := by
  intro p d mem
  simp only [Rules.addDomains] at mem
  split at mem
  · rcases List.mem_append.mp mem with old | added
    · exact all p d old
    · exact new d added
  · exact all p d mem

theorem Rules.All.addCidrs (all : r.All holds) (policy : Policy) (cidrs : List CIDR) :
    (r.addCidrs policy cidrs).All holds :=
  all

variable {infos : List CodeInfo}

section

variable (all : r.All holds)

include all

theorem Rules.All.geoip {filename : Bytes} {cache : Cache GeoIP}
    (loaded : geoipRules lib filename cache r infos = .ok r') :
    r'.All holds := by
  induction infos generalizing cache r with
  | nil =>
    cases loaded
    exact all
  | cons c infos ih =>
    rw [geoipRules] at loaded
    split at loaded
    · cases loaded
    · cases loaded
    · exact ih all loaded
    · exact ih (all.addCidrs _ _) loaded

theorem Rules.All.text {type : RuleType} (new : ∀ info ∈ infos, holds ⟨type, lib.toLower info.code⟩) :
    (textRules lib type r infos).All holds := by
  induction infos generalizing r with
  | nil => exact all
  | cons info infos ih =>
    obtain ⟨here, new⟩ := List.forall_mem_cons.mp new
    exact ih (all.addDomains _ (by simpa using here)) new

theorem Rules.All.regex (new : ∀ info ∈ infos, holds ⟨.regex, info.code⟩)
    (loaded : regexRules lib r infos = .ok r') : r'.All holds := by
  induction infos generalizing r with
  | nil =>
    cases loaded
    exact all
  | cons info infos ih =>
    obtain ⟨here, new⟩ := List.forall_mem_cons.mp new
    rw [regexRules] at loaded
    split at loaded
    · exact ih (all.addDomains _ (by simpa using here)) new loaded
    · cases loaded

theorem Rules.All.cidr (loaded : cidrRules lib r infos = .ok r') :
    r'.All holds := by
  induction infos generalizing r with
  | nil =>
    cases loaded
    exact all
  | cons info infos ih =>
    rw [cidrRules] at loaded
    split at loaded
    · cases loaded
    · exact ih (all.addCidrs _ _) loaded

end

end All

/-- A rule that is given in the text of the configuration. -/
def Domain.Given (lib : Libraries) (d : Domain) : Prop :=
  d.type = .regex ∨ ∃ code, d.value = lib.toLower code

theorem bind_eq_ok {α β : Type} {x : Except Failure α} {f : α → Except Failure β} {b : β}
    (ran : x.bind f = .ok b) : ∃ a, x = .ok a ∧ f a = .ok b := by
  cases x with
  | error e => cases ran
  | ok a => exact ⟨a, rfl, ran⟩

/-- Without geosite codes all rules are given in the text. -/
theorem loadRules_given {cfg : Config} {r : Rules} (none : loadCode cfg (ascii "geosite:") = [])
    (loaded : loadRules lib cfg = .ok r) : r.All (Domain.Given lib) := by
  unfold loadRules at loaded
  rw [none] at loaded
  obtain ⟨r1, first, loaded⟩ := bind_eq_ok loaded
  obtain ⟨r2, second, loaded⟩ := bind_eq_ok loaded
  obtain ⟨r3, third, loaded⟩ := bind_eq_ok loaded
  obtain ⟨r4, fourth, loaded⟩ := bind_eq_ok loaded
  have same : r1 = r2 := Except.ok.inj second
  have start : Rules.All (Domain.Given lib) {} := fun p d mem => by cases mem
  have texts : ∀ {type : RuleType} {r : Rules} {infos : List CodeInfo},
      r.All (Domain.Given lib) → (textRules lib type r infos).All (Domain.Given lib) :=
    fun all => all.text fun info _ => .inr ⟨info.code, rfl⟩
  have regexes : ∀ {r r' : Rules} {infos : List CodeInfo}, r.All (Domain.Given lib) →
      regexRules lib r infos = .ok r' → r'.All (Domain.Given lib) :=
    fun all => all.regex fun _ _ => .inl rfl
  have collected : r2.All (Domain.Given lib) := same ▸ start.geoip first
  exact (texts (regexes (regexes (texts (texts collected)) third) fourth)).cidr loaded

theorem newClient_ok {cfg : Config} {c : Client} (made : newClient lib cfg = .ok c) :
    ∃ r, loadRules lib cfg = .ok r ∧ c.domains = r.domains ∧ c.cidrs = r.cidrs ∧
      strategyOf (lib.toLower cfg.domainStrategy) = some c.domainStrategy ∧
      policyOf (lib.toLower cfg.defaultPolicy) = some c.defaultPolicy := by
  grind [newClient]

end TrojanGo.Router
