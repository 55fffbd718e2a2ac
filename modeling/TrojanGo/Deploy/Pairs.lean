import TrojanGo.Deploy.Certificates

/-!
# The stable paths hold a pair

Until `current` is switched the installation touches nothing that the stable paths resolve
through. From the switch on, a stable path is as it was before or a link to the new version.
-/
namespace TrojanGo.Deploy

open Lib Lib.Links Prog List

/-! ### Resolving the stable paths -/

variable {t' : LinkedTree Bytes} {key certificate : Bytes}

section Resolve

variable {t : LinkedTree Bytes} {names : Names} {name file version : String} {c : Bytes}

theorem content_file (plain : Plain name) (found : entry t [name] = some (.file c)) :
    content t [name] = some c := by
  have resolved : resolve t [name] = some [name] := walk_file plain found
  simp [content, stat, resolved, found]

theorem content_link (plain : Plain name) (plainVersion : Plain version) (plainFile : Plain file)
    (linked : entry t [name] = some (.link [".certstore", "current", file]))
    (store : entry t storeDir = some .dir)
    (current : entry t ["current", ".certstore"] = some (.link [version]))
    (dir : entry t [version, ".certstore"] = some .dir)
    (found : entry t [file, version, ".certstore"] = some (.file c)) :
    content t [name] = some c := by
  have resolved : resolve t [name] = some [file, version, ".certstore"] := by
    show walk t steps [] [name] = _
    rw [steps, walk_link plain linked (by simp), append_nil]
    rw [walk_dir (by decide) store]
    rw [walk_link (by decide) current (by simpa using plainVersion.1), singleton_append]
    rw [walk_dir plainVersion dir, walk_file plainFile found]
  simp [content, stat, resolved, found]

/-- The paths that make up a version in use. -/
def livePaths (version : String) : List Path :=
  [storeDir, ["current", ".certstore"], [version, ".certstore"],
    ["cert.pem", version, ".certstore"], ["key.pem", version, ".certstore"]]

theorem Live.frame (live : Live t version c key)
    (same : ∀ q ∈ livePaths version, entry t' q = entry t q) : Live t' version c key := by
  obtain ⟨store, current, dir, cert, key⟩ := live
  constructor <;> rwa [same _ (by simp [livePaths])]

theorem Live.cert_content (live : Live t version c key) (plain : Plain version)
    (linked : CertLinked names t) : content t [names.cert] = some c :=
  content_link names.plain.1 plain (by decide) linked live.store live.current live.dir live.cert

theorem Live.key_content (live : Live t version certificate c) (plain : Plain version)
    (linked : KeyLinked names t) : content t [names.key] = some c :=
  content_link names.plain.2 plain (by decide) linked live.store live.current live.dir live.key

end Resolve

/-! ### Phases -/

section Phases

variable {env : Env} {names : Names} {start t t' : LinkedTree Bytes} {version : String}
  {certificate key : Bytes}

/-- What the installation keeps up: a pair, unless exactly one of the paths is a link. -/
def Safe (env : Env) (names : Names) (t : LinkedTree Bytes) : Prop :=
  (CertLinked names t ↔ KeyLinked names t) → Matches env names t

/-- The paths that decide what the stable paths hold before the switch. -/
structure Watch (env : Env) (names : Names) (start : LinkedTree Bytes) (paths : List Path) : Prop where
  cert : [names.cert] ∈ paths
  key : [names.key] ∈ paths
  exist : ∀ q ∈ paths, entry start q ≠ none
  closed : ∀ q ∈ paths, ∀ version, [version, ".certstore"] <:+ q → [version, ".certstore"] ∈ paths
  unstaged : [staged "current", ".certstore"] ∉ paths
  safe : ∀ t, (∀ q ∈ paths, entry t q = entry start q) → Safe env names t

section

variable (known : Documented names start) (pair : Matches env names start)

include known pair

/-- Two plain files that are left alone stay a pair. -/
theorem Documented.files (plainCert : ¬ CertLinked names start) (plainKey : ¬ KeyLinked names start)
    (sameCert : entry t [names.cert] = entry start [names.cert])
    (sameKey : entry t [names.key] = entry start [names.key]) : Matches env names t := by
  obtain ⟨c, certHeld, k, keyHeld, fits⟩ := pair
  obtain ⟨c', file⟩ := known.cert.resolve_left plainCert
  obtain ⟨k', file'⟩ := known.key.resolve_left plainKey
  obtain rfl : c' = c := Option.some.inj ((content_file names.plain.1 file).symm.trans certHeld)
  obtain rfl : k' = k := Option.some.inj ((content_file names.plain.2 file').symm.trans keyHeld)
  exact ⟨c', content_file names.plain.1 (sameCert.trans file), k',
    content_file names.plain.2 (sameKey.trans file'), fits⟩

/-- In a known layout with a matching pair there are such paths. -/
theorem Documented.watch :
    ∃ paths, Watch env names start paths := by
  have there : entry start [names.cert] ≠ none ∧ entry start [names.key] ≠ none := by
    have cert := known.cert
    have key := known.key
    simp only [CertLinked, KeyLinked] at cert key
    constructor <;> intro missing <;> simp_all
  by_cases both : CertLinked names start ∧ KeyLinked names start
  · -- the paths that lead to the version in use
    obtain ⟨v, c', k', plain, unstaged, live⟩ := known.live both.1 both.2
    obtain ⟨c, certHeld, k, keyHeld, fits⟩ := pair
    obtain rfl : c' = c := Option.some.inj ((live.cert_content plain both.1).symm.trans certHeld)
    obtain rfl : k' = k := Option.some.inj ((live.key_content plain both.2).symm.trans keyHeld)
    refine ⟨[names.cert] :: [names.key] :: livePaths v, by simp, by simp, ?_, ?_, ?_, ?_⟩
    · simp [livePaths, there, live.store, live.current, live.dir, live.cert, live.key]
    · intro q mem v' below
      simp only [livePaths, mem_cons, not_mem_nil, or_false, storeDir] at mem
      rcases mem with rfl | rfl | rfl | rfl | rfl | rfl | rfl <;>
        simp_all [livePaths, suffix_cons_iff]
    · simpa [livePaths, storeDir, staged] using Ne.symm unstaged
    · intro t same _
      have now : Live t v c' k' :=
        live.frame fun q mem => same q (mem_cons_of_mem _ (mem_cons_of_mem _ mem))
      have certLinked : CertLinked names t := (same _ (by simp)).trans both.1
      have keyLinked : KeyLinked names t := (same _ (by simp)).trans both.2
      exact ⟨c', now.cert_content plain certLinked, k', now.key_content plain keyLinked, fits⟩
  · refine ⟨[[names.cert], [names.key]], by simp, by simp, by simpa using there, ?_, by simp, ?_⟩
    · intro q mem v below
      simp only [mem_cons, not_mem_nil, or_false] at mem
      rcases mem with rfl | rfl <;> simp [suffix_cons_iff] at below
    · intro t same alike
      have sameCert := same [names.cert] (by simp)
      have sameKey := same [names.key] (by simp)
      have none : ¬ CertLinked names start ∧ ¬ KeyLinked names start := by
        simp only [CertLinked, KeyLinked, sameCert, sameKey] at alike both ⊢
        tauto
      exact known.files pair none.1 none.2 sameCert sameKey

end

/-- Before the switch nothing that is watched has changed. -/
def Kept (start : LinkedTree Bytes) (paths : List Path) (t : LinkedTree Bytes) : Prop :=
  ∀ q ∈ paths, entry t q = entry start q

/-- The directory of the new version is there and is not watched. -/
structure Prepared (start : LinkedTree Bytes) (paths : List Path) (version : String)
    (t : LinkedTree Bytes) : Prop where
  kept : Kept start paths t
  store : entry t storeDir = some .dir
  dir : entry t [version, ".certstore"] = some .dir

/-- A file of a version. -/
def Holds (version file : String) (content : Bytes) (t : LinkedTree Bytes) : Prop :=
  entry t [file, version, ".certstore"] = some (.file content)

/-- The new version is complete. -/
structure Filled (start : LinkedTree Bytes) (paths : List Path) (version : String)
    (certificate key : Bytes) (t : LinkedTree Bytes) : Prop where
  prepared : Prepared start paths version t
  cert : Holds version "cert.pem" certificate t
  key : Holds version "key.pem" key t

/-- After the switch each stable path is as it was or leads to the new version. -/
structure Switched (names : Names) (start : LinkedTree Bytes) (version : String)
    (certificate key : Bytes) (t : LinkedTree Bytes) : Prop where
  live : Live t version certificate key
  cert : entry t [names.cert] = entry start [names.cert] ∨ CertLinked names t
  key : entry t [names.key] = entry start [names.key] ∨ KeyLinked names t

theorem Switched.safe (switched : Switched names start version certificate key t)
    (plain : Plain version) (fits : env.x509KeyPair certificate key = .ok ())
    (known : Documented names start) (pair : Matches env names start) : Safe env names t := by
  intro alike
  by_cases linked : CertLinked names t
  · exact ⟨certificate, switched.live.cert_content plain linked, key,
      switched.live.key_content plain (alike.mp linked), fits⟩
  · -- both are still the files they were
    have sameCert := switched.cert.resolve_right linked
    have sameKey := switched.key.resolve_right fun other => linked (alike.mpr other)
    exact known.files pair (fun old => linked (sameCert.trans old))
      (fun old => linked (alike.mpr (sameKey.trans old))) sameCert sameKey

theorem Kept.frame {paths : List Path} (kept : Kept start paths t)
    (same : ∀ q ∈ paths, entry t' q = entry t q) : Kept start paths t' :=
  fun q mem => (same q mem).trans (kept q mem)

theorem Switched.frame (switched : Switched names start version certificate key t)
    (same : ∀ q ∈ livePaths version, entry t' q = entry t q)
    (sameCert : entry t' [names.cert] = entry t [names.cert] ∨ CertLinked names t')
    (sameKey : entry t' [names.key] = entry t [names.key] ∨ KeyLinked names t') :
    Switched names start version certificate key t' := by
  have cert := switched.cert
  have key := switched.key
  refine ⟨switched.live.frame same, ?_, ?_⟩ <;> grind [CertLinked, KeyLinked]

end Phases

/-! ### The programs -/

open Prog (Contract outcome wp)

abbrev contract (inv : LinkedTree Bytes → Prop) : Contract (LinkedTree Bytes) Op := .alone KeepsLive inv

/-- The program keeps the invariant, and what holds where it ends depends on whether it fails. -/
abbrev Runs {α : Type} (inv : LinkedTree Bytes → Prop) (p : Install α)
    (good : α → LinkedTree Bytes → Prop) (bad : LinkedTree Bytes → Prop) (t : LinkedTree Bytes) :
    Prop :=
  wp exec (contract inv) p.run (outcome good bad) t

variable {t : LinkedTree Bytes}

theorem attempt_cases {α : Type} {fate : Fate} {value : α} {made : Option (LinkedTree Bytes)}
    {result : Except String α} (ended : attempt fate t value made = (result, t')) :
    result = .ok value ∧ made = some t' ∨ (∃ e, result = .error e) ∧ t' = t := by
  unfold attempt at ended
  split at ended
  · grind
  · cases ended
    exact .inr ⟨⟨_, rfl⟩, rfl⟩

variable {target : List String}

section Programs

variable {inv before after : LinkedTree Bytes → Prop} {t : LinkedTree Bytes}

/-- A call that changes the tree, if it succeeds, in the given way. -/
theorem act_wp {op : Op} {good : Out op → LinkedTree Bytes → Prop} {value : Out op}
    {made : LinkedTree Bytes → Option (LinkedTree Bytes)}
    (performs : ∀ fate t, before t → perform fate t op = attempt fate t value (made t))
    (makes : ∀ t t', before t → made t = some t' → inv t' ∧ good value t')
    (safe : ∀ t, before t → inv t) (held : before t) : Runs inv (act op) good before t := by
  refine wp_last fun fate result t' _ done => ?_
  have ended := Option.some.inj done
  rw [performs fate t held] at ended
  rcases attempt_cases ended with ⟨rfl, made⟩ | ⟨⟨e, rfl⟩, rfl⟩
  · exact makes t t' held made
  · exact ⟨safe _ held, held⟩

/-- A call that only looks. -/
theorem look_wp {op : Op} {found : LinkedTree Bytes → Option (Out op)}
    (performs : ∀ fate t, perform fate t op = query fate t (found t))
    (safe : ∀ t, before t → inv t) (held : before t) :
    wp exec (contract inv) (ask op) (fun _ => before) t := by
  refine wp_last fun fate result t' _ done => ?_
  have ended := Option.some.inj done
  rw [performs] at ended
  obtain rfl : t' = t := by
    unfold query at ended
    split at ended <;> exact (congrArg Prod.snd ended).symm
  exact ⟨safe t' held, held⟩

/-- A removal at a path that is where it says. -/
theorem remove_frame {fate : Fate} {p : Path} {result : Except String Unit}
    (located : locate t p = some p) (ended : perform fate t (.remove p) = (result, t')) :
    ∀ q, q ≠ p → entry t' q = entry t q := by
  intro q other
  simp only [perform, located, Option.bind_some] at ended
  rcases attempt_cases ended with ⟨-, removed⟩ | ⟨-, rfl⟩
  · simp [(remove_ok removed).2 q, other]
  · rfl

theorem orElse_wp {p : Install Unit} {cleanup : Op} {good : Unit → LinkedTree Bytes → Prop}
    {bad : LinkedTree Bytes → Prop} (runs : Runs inv p good bad t)
    (cleans : ∀ t, bad t → wp exec (contract inv) (ask cleanup) (fun _ => after) t) :
    Runs inv (orElse p cleanup) good after t := by
  refine wp_then runs fun result t _ ended => ?_
  cases result with
  | ok value => exact wp_done ended
  | error e => exact wp_map (cleans t ended)

theorem swap_wp {dir : Path} {link : String}
    (located : ∀ t, before t → locate t (staged link :: dir) = some (staged link :: dir) ∧
      locate t (link :: dir) = some (link :: dir))
    (keeps : ∀ t t', before t → (∀ q, q ≠ staged link :: dir → entry t' q = entry t q) → before t')
    (switches : ∀ t t', before t →
      (∀ q, q ≠ staged link :: dir → q ≠ link :: dir → entry t' q = entry t q) →
      entry t' (link :: dir) = some (.link target) → after t') (safe : ∀ t, before t → inv t)
    (safe' : ∀ t, after t → inv t) (held : before t) :
    Runs inv (atomicSwapSymlink dir target link) (fun _ => after) (fun t => before t ∨ after t)
      t := by
  -- a left-over of the staged name is removed first, and again if the rename fails
  have removes : ∀ t, before t → wp exec (contract inv) (ask (.remove (staged link :: dir)))
      (fun _ => before) t := by
    intro t held
    refine wp_last fun fate result t' _ done => ?_
    have same := remove_frame (located t held).1 (Option.some.inj done)
    have held' := keeps t t' held same
    exact ⟨safe t' held', held'⟩
  refine wp_lift (removes t held) fun _ t _ held => ?_
  have links : Runs inv (act (.symlink target (staged link :: dir)))
      (fun _ t => before t ∧ entry t (staged link :: dir) = some (.link target)) before t := by
    refine act_wp (fun fate t held => by rw [perform, (located t held).1, Option.bind_some]) ?_ safe
      held
    intro t t' held created
    have left := (create_ok created).2.2
    have held' := keeps t t' held fun q other => by simp [left q, other]
    exact ⟨safe t' held', held', by simp [left]⟩
  refine wp_try links ?_ fun _ _ _ held => .inl held
  intro _ t _ made
  have renames : Runs inv (act (.rename (staged link :: dir) (link :: dir))) (fun _ => after)
      (fun t => before t ∧ entry t (staged link :: dir) = some (.link target)) t := by
    refine act_wp (fun fate t held => by
      rw [perform, (located t held.1).1, Option.bind_some, (located t held.1).2, Option.bind_some])
      ?_ (fun t held => safe t held.1) made
    rintro t t' ⟨held, made⟩ renamed
    obtain ⟨-, -, moved, found, left⟩ := rename_ok renamed
    obtain rfl : moved = .link target := Option.some.inj (found.symm.trans made)
    have held' := switches t t' held (fun q a b => by simp [left q, a, b]) (by simp [left])
    exact ⟨safe' t' held', held'⟩
  refine wp_try (orElse_wp renames fun t held => removes t held.1) ?_
    fun _ _ _ held => .inl held
  intro _ t _ held
  refine wp_mono ?_ (look_wp (fun _ _ => rfl) safe' held)
  intro result t _ held
  cases result with
  | ok value => exact held
  | error e => exact .inr held

theorem writeFile_wp {path : Path} {content : Bytes}
    (located : ∀ t, before t → locate t path = some path)
    (keeps : ∀ t t', before t → (∀ q, q ≠ path → entry t' q = entry t q) → before t')
    (safe : ∀ t, before t → inv t) (held : before t) :
    Runs inv (writeFile path content)
      (fun _ t => before t ∧ entry t path = some (.file content)) before t := by
  -- whatever is written, other paths are left alone
  have written : ∀ {t t' : LinkedTree Bytes} {c : Bytes}, before t → Links.write t path c = some t' →
      before t' := by
    intro t t' c held made
    exact keeps t t' held fun q other => by simp [(write_ok made).2 q, other]
  have opens : Runs inv (act (.openFile path)) (fun _ => before) before t := by
    refine act_wp (fun fate t held => by rw [perform, located t held, Option.bind_some]) ?_ safe held
    exact fun t t' held made => ⟨safe t' (written held made), written held made⟩
  refine wp_try opens ?_ fun _ _ _ held => held
  intro _ t _ held
  refine wp_last fun fate result t' _ done => ?_
  have ended := Option.some.inj done
  simp only [perform, located t held, Option.bind_some] at ended
  split at ended
  next part whole torn made =>
    split at ended
    · cases ended
      exact ⟨safe _ (written held made), written held made, by simp [(write_ok made).2]⟩
    · cases ended
      exact ⟨safe _ (written held torn), written held torn⟩
  · cases ended
    exact ⟨safe _ held, held⟩

end Programs

/-! ### The installation -/

section Install

/-- The name of a version directory. -/
def versionName (suffix : String) : String := "v-" ++ suffix

theorem version_plain (suffix : String) : Plain (versionName suffix) := by
  refine ⟨?_, ?_, ?_⟩ <;> intro same <;> simpa [versionName] using congrArg String.toList same

theorem version_ne_staged (suffix : String) : versionName suffix ≠ staged "current" := by
  intro same
  simpa [versionName, staged] using congrArg String.toList same

theorem staged_ne_store (name : String) : staged name ≠ ".certstore" := by
  intro same
  have ends := congrArg (fun text => text.toList.reverse.head?) same
  simp [staged] at ends

theorem staged_ne (name : String) : name ≠ staged name := by
  intro same
  have sizes := congrArg (fun text => text.toList.length) same
  simp [staged] at sizes
  omega

/-- One installation: what it starts from, the paths that matter, and what it installs. -/
structure Job where
  env : Env
  names : Names
  start : LinkedTree Bytes
  paths : List Path
  suffix : String
  certificate : Bytes
  key : Bytes

namespace Job

variable (j : Job)

abbrev version : String := versionName j.suffix

abbrev dir : Path := [j.version, ".certstore"]

abbrev Prepared : LinkedTree Bytes → Prop := Deploy.Prepared j.start j.paths j.version

abbrev Filled : LinkedTree Bytes → Prop :=
  Deploy.Filled j.start j.paths j.version j.certificate j.key

abbrev Switched : LinkedTree Bytes → Prop :=
  Deploy.Switched j.names j.start j.version j.certificate j.key

/-- The paths that matter are watched, and the directory of the new version is none of them. -/
structure Apart : Prop where
  watch : Watch j.env j.names j.start j.paths
  fresh : j.dir ∉ j.paths

end Job

variable {j : Job} {env : Env} {names : Names} {start t t' : LinkedTree Bytes} {paths : List Path}
  {inv : LinkedTree Bytes → Prop}

theorem Job.Apart.prepared {p : Path} (apart : j.Apart) (prepared : j.Prepared t)
    (inside : p = [staged "current", ".certstore"] ∨ ∃ file, p = file :: j.dir)
    (same : ∀ q, q ≠ p → entry t' q = entry t q) : j.Prepared t' := by
  have unwatched : p ∉ j.paths := by
    rcases inside with rfl | ⟨file, rfl⟩
    · exact apart.watch.unstaged
    · intro mem
      exact apart.fresh (apart.watch.closed _ mem _ (suffix_cons _ _))
  have others : storeDir ≠ p ∧ j.dir ≠ p := by
    rcases inside with rfl | ⟨file, rfl⟩
    · exact ⟨by decide, by simpa using version_ne_staged j.suffix⟩
    · exact ⟨by simp [storeDir], by simp⟩
  refine ⟨prepared.kept.frame ?_, (same _ others.1).trans prepared.store,
    (same _ others.2).trans prepared.dir⟩
  intro q mem
  exact same q fun equal => unwatched (equal ▸ mem)

/-- The one rename that puts the new version in use. -/
theorem Job.Apart.switched (apart : j.Apart) (filled : j.Filled t)
    (same : ∀ q, q ≠ staged "current" :: storeDir → q ≠ "current" :: storeDir →
      entry t' q = entry t q)
    (linked : entry t' ("current" :: storeDir) = some (.link [j.version])) : j.Switched t' := by
  have unstaged : j.dir ≠ staged "current" :: storeDir := by
    simpa [storeDir] using version_ne_staged j.suffix
  have other : j.dir ≠ "current" :: storeDir := by
    intro equal
    have text := congrArg String.toList (cons.inj equal).1
    simp [versionName] at text
  -- a path of another length is neither the link nor its staged name
  have elsewhere : ∀ q : Path, q.length ≠ 2 → entry t' q = entry t q := by
    intro q length
    refine same q ?_ ?_ <;> rintro rfl <;> simp [storeDir] at length
  refine ⟨⟨?_, linked, ?_, ?_, ?_⟩, .inl ?_, .inl ?_⟩
  · exact (elsewhere _ (by decide)).trans filled.prepared.store
  · exact (same _ unstaged other).trans filled.prepared.dir
  · exact (elsewhere _ (by simp)).trans filled.cert
  · exact (elsewhere _ (by simp)).trans filled.key
  · exact (elsewhere _ (by simp)).trans (filled.prepared.kept _ apart.watch.cert)
  · exact (elsewhere _ (by simp)).trans (filled.prepared.kept _ apart.watch.key)

theorem installVersion_wp (apart : j.Apart) (safe : ∀ t, j.Switched t → Safe j.env j.names t)
    (prepared : j.Prepared t) :
    Runs (Safe j.env j.names) (installVersion j.dir j.certificate j.key) (fun _ => j.Switched)
      (fun t => j.Prepared t ∨ j.Switched t) t := by
  have kept : ∀ t, j.Prepared t → Safe j.env j.names t :=
    fun t prepared => apart.watch.safe t prepared.kept
  have located : ∀ file t, j.Prepared t → locate t (file :: j.dir) = some (file :: j.dir) :=
    fun file t prepared =>
      locate_below (by decide) prepared.store (version_plain j.suffix) prepared.dir
  have certWrites := @writeFile_wp _ _ t _ j.certificate (located "cert.pem")
    (fun t t' prepared same => apart.prepared prepared (.inr ⟨_, rfl⟩) same) kept prepared
  refine wp_try (wp_adapt certWrites) ?_ fun _ _ _ prepared => .inl prepared
  intro _ t _ written
  have keyWrites : Runs (Safe j.env j.names) (writeFile ("key.pem" :: j.dir) j.key)
      (fun _ t => (j.Prepared t ∧ Holds j.version "cert.pem" j.certificate t) ∧
        Holds j.version "key.pem" j.key t)
      (fun t => j.Prepared t ∧ Holds j.version "cert.pem" j.certificate t) t := by
    refine writeFile_wp (fun t held => located "key.pem" t held.1) ?_ (fun t held => kept t held.1)
      written
    rintro t t' ⟨prepared, written⟩ same
    exact ⟨apart.prepared prepared (.inr ⟨_, rfl⟩) same, (same _ (by simp)).trans written⟩
  refine wp_try (wp_adapt keyWrites) ?_ fun _ _ _ held => .inl held.1
  rintro _ t _ ⟨⟨prepared, certHeld⟩, keyHeld⟩
  have syncs : Runs (Safe j.env j.names) (act (.syncDir j.dir)) (fun _ => j.Filled) j.Prepared t := by
    have filled : j.Filled t := ⟨prepared, certHeld, keyHeld⟩
    refine wp_mono ?_ (look_wp (fun _ _ => rfl) (fun t filled => kept t filled.prepared) filled)
    rintro (e | value) t _ filled
    · exact filled.prepared
    · exact filled
  refine wp_try (wp_adapt syncs) ?_ fun _ _ _ prepared => .inl prepared
  intro _ t _ filled
  have swaps : Runs (Safe j.env j.names) (atomicSwapSymlink storeDir [j.version] "current")
      (fun _ => j.Switched) (fun t => j.Filled t ∨ j.Switched t) t := by
    refine swap_wp ?_ ?_ (fun _ _ filled => apart.switched filled)
      (fun t filled => kept t filled.prepared) safe filled
    · exact fun t filled =>
        ⟨locate_in (by decide) filled.prepared.store, locate_in (by decide) filled.prepared.store⟩
    · intro t t' filled same
      exact ⟨apart.prepared filled.prepared (.inl rfl) same,
        (same _ (by simp [storeDir])).trans filled.cert,
        (same _ (by simp [storeDir])).trans filled.key⟩
  refine wp_adapt (wp_mono ?_ swaps)
  rintro (e | value) t _ ended
  · exact ended.imp_left Filled.prepared
  · exact ended

theorem Documented.ne_store (known : Documented names start) :
    names.cert ≠ ".certstore" ∧ names.key ≠ ".certstore" := by
  have cert := known.cert
  have key := known.key
  have store := known.store
  simp only [CertLinked, KeyLinked, storeDir] at cert key store
  constructor <;> intro same <;> rcases store with store | store <;> simp_all

/-- A change of entries in the certificate directory itself. -/
theorem Switched.top {version : String} (switched : Switched names start version certificate key t)
    (changed : List String) (apart : ".certstore" ∉ changed)
    (same : ∀ q, (∀ name ∈ changed, q ≠ [name]) → entry t' q = entry t q)
    (certLeft : names.cert ∉ changed ∨ CertLinked names t')
    (keyLeft : names.key ∉ changed ∨ KeyLinked names t') :
    Switched names start version certificate key t' := by
  refine switched.frame ?_ ?_ ?_
  · grind [livePaths, storeDir]
  · exact certLeft.imp_left fun outside => same _ fun name changes equal => by simp_all
  · exact keyLeft.imp_left fun outside => same _ fun name changes equal => by simp_all

theorem ensure_wp {held : LinkedTree Bytes → Prop} {name : String}
    (keeps : ∀ t t', held t → (∀ q, q ≠ [staged name] → entry t' q = entry t q) → held t')
    (links : ∀ t t', held t → (∀ q, q ≠ [staged name] → q ≠ [name] → entry t' q = entry t q) →
      entry t' [name] = some (.link target) → held t') (safe : ∀ t, held t → inv t) (start : held t) :
    Runs inv (ensureCertSymlink [] name target) (fun _ => held) held t := by
  refine wp_lift (look_wp (fun _ _ => rfl) safe start) fun current t _ start => ?_
  split
  · exact wp_success start
  · refine wp_mono ?_
      (swap_wp (fun _ _ => ⟨locate_top, locate_top⟩) keeps links safe safe start)
    rintro (e | value) t _ ended
    · exact ended.elim id id
    · exact ended

/-- One of the stable paths becomes a link, or another path of the certificate directory. -/
theorem link_wp {name : String} (hidden : name ≠ ".certstore")
    (unstaged : j.names.cert ≠ staged name ∧ j.names.key ≠ staged name)
    (cert : j.names.cert = name → target = certTarget)
    (key : j.names.key = name → target = keyTarget) (safe : ∀ t, j.Switched t → inv t)
    (switched : j.Switched t) :
    Runs inv (ensureCertSymlink [] name target) (fun _ => j.Switched) j.Switched t := by
  have apart := (staged_ne_store name).symm
  refine ensure_wp ?_ ?_ safe switched
  · intro t t' switched same
    refine switched.top [staged name] (by simpa using apart) ?_ (.inl ?_) (.inl ?_)
    · exact fun q other => same q (other _ (by simp))
    · simpa using unstaged.1
    · simpa using unstaged.2
  · intro t t' switched same linked
    refine switched.top [staged name, name] ?_ ?_ ?_ ?_
    · simpa using ⟨apart, hidden.symm⟩
    · exact fun q other => same q (other _ (by simp)) (other _ (by simp))
    · grind [CertLinked]
    · grind [KeyLinked]

/-- Only other versions are removed. -/
theorem removeVersions_wp (safe : ∀ t, j.Switched t → inv t) (entries : List (String × Bool))
    (switched : j.Switched t) :
    Runs inv (removeVersions storeDir j.version entries) (fun _ => j.Switched) j.Switched t := by
  induction entries generalizing t with
  | nil => exact wp_success switched
  | cons row rest ih =>
    obtain ⟨name, isDir⟩ := row
    unfold removeVersions
    split
    next old =>
      obtain ⟨-, other, tagged⟩ := old
      have removes : wp exec (contract inv) (ask (.removeAll (name :: storeDir)))
          (fun _ => j.Switched) t := by
        refine wp_last fun fate result t' _ done => ?_
        have same : ∀ q, ¬ name :: storeDir <:+ q → entry t' q = entry t q := by
          intro q outside
          have ended := Option.some.inj done
          have located : locate t (name :: storeDir) = some (name :: storeDir) :=
            locate_in (by decide) switched.live.store
          simp only [perform, located] at ended
          split at ended <;> cases ended <;> exact entry_removeAll outside
        have switched' : j.Switched t' := by
          refine switched.frame ?_ (.inl (same _ ?_)) (.inl (same _ ?_))
          · intro q mem
            apply same
            -- only names of versions are removed, and not the one in use
            have untagged : name ≠ "current" := by
              rintro rfl
              simp at tagged
            simp only [livePaths, mem_cons, not_mem_nil, or_false] at mem
            rcases mem with rfl | rfl | rfl | rfl | rfl <;>
              simp_all [storeDir, suffix_cons_iff]
          · simp [storeDir, suffix_cons_iff]
          · simp [storeDir, suffix_cons_iff]
        exact ⟨safe t' switched', switched'⟩
      exact wp_lift removes fun _ t _ switched => ih switched
    · exact ih switched

/-- The store is made if it is not there. -/
theorem store_made (before : entry t storeDir = none ∨ entry t storeDir = some .dir)
    (made : mkdirAll t storeDir = some t') :
    entry t' storeDir = some .dir ∧ ∀ q, entry t q ≠ none → entry t' q = entry t q := by
  rcases before with absent | there
  · have missing : stat t storeDir = none := by
      simp [stat, resolve, storeDir, walk, steps, show entry t [".certstore"] = none from absent]
    simp only [storeDir] at missing
    simp only [storeDir, mkdirAll, missing, Option.bind_some] at made
    obtain ⟨-, free, left⟩ := create_ok made
    refine ⟨by simp [left, storeDir], fun q found => ?_⟩
    rw [left q, if_neg]
    rintro rfl
    exact found free
  · have found : stat t storeDir = some .dir := by
      simp [stat, resolve, storeDir, walk, steps, show entry t [".certstore"] = _ from there]
    simp only [storeDir] at found
    simp only [storeDir, mkdirAll, found] at made
    cases made
    exact ⟨there, fun _ _ => rfl⟩

theorem store_wp (known : Documented names start) (watch : Watch env names start paths) :
    Runs (Safe env names) (act (.mkdirAll storeDir))
      (fun _ t => Kept start paths t ∧ entry t storeDir = some .dir) (Eq start) start := by
  refine act_wp (fun _ _ _ => rfl) ?_ (fun t same => watch.safe t fun _ _ => same ▸ rfl) rfl
  rintro _ t' rfl made
  obtain ⟨store, grown⟩ := store_made known.store made
  have kept : Kept start paths t' := fun q mem => grown q (watch.exist q mem)
  exact ⟨watch.safe t' kept, kept, store⟩

/-- A new name is not among the paths that matter, since those are all there. -/
theorem version_wp (watch : Watch env names start paths) (kept : Kept start paths t)
    (store : entry t storeDir = some .dir) :
    Runs (Safe env names) (act (.mkdirTemp storeDir))
      (fun path t => ∃ suffix, path = [versionName suffix, ".certstore"] ∧ path ∉ paths ∧
        Prepared start paths (versionName suffix) t) (fun _ => True) t := by
  refine wp_last fun fate result t' _ done => ?_
  have ended := Option.some.inj done
  have located : locate t (("v-" ++ fate.suffix) :: storeDir) =
      some [versionName fate.suffix, ".certstore"] := locate_in (by decide) store
  simp only [perform, located, Option.bind_some] at ended
  rcases attempt_cases ended with ⟨rfl, made⟩ | ⟨⟨e, rfl⟩, rfl⟩
  · obtain ⟨-, free, left⟩ := create_ok made
    -- the directory is new, and all paths that matter were there
    have fresh : [versionName fate.suffix, ".certstore"] ∉ paths := by
      intro mem
      exact watch.exist _ mem ((kept _ mem).symm.trans free)
    have kept' : Kept start paths t' := by
      refine kept.frame fun q mem => ?_
      rw [left q, if_neg]
      rintro rfl
      exact fresh mem
    have prepared : Prepared start paths (versionName fate.suffix) t' := by
      refine ⟨kept', ?_, by simp [left]⟩
      rw [left]
      simpa [storeDir] using store
    exact ⟨watch.safe t' kept', fate.suffix, rfl, fresh, prepared⟩
  · exact ⟨watch.safe _ kept, trivial⟩

theorem cleanup_wp (apart : j.Apart) (failed : j.Prepared t ∨ j.Switched t) :
    wp exec (contract (Safe j.env j.names)) (ask (.removeAll j.dir)) (fun _ _ => True) t := by
  refine wp_last fun fate result t' admitted done => ?_
  rcases failed with prepared | switched
  · have located : locate t j.dir = some j.dir := locate_in (by decide) prepared.store
    have ended := Option.some.inj done
    simp only [perform, located] at ended
    have kept : Kept j.start j.paths t' := by
      refine prepared.kept.frame fun q mem => ?_
      have outside : ¬ j.dir <:+ q := fun below => apart.fresh (apart.watch.closed q mem _ below)
      split at ended <;> cases ended <;> exact entry_removeAll outside
    exact ⟨apart.watch.safe t' kept, trivial⟩
  · -- the version is in use, and its removal was ruled out
    exact absurd ⟨rfl, switched.live.current⟩ admitted

/-- Wherever the installation ends, the stable paths hold a pair or exactly one is a link. -/
theorem writeCertificateFiles_wp (known : Documented names start) (pair : Matches env names start)
    (watch : Watch env names start paths) :
    wp exec (contract (Safe env names)) (writeCertificateFiles env names certificate key).run
      (fun _ _ => True) start := by
  have unchanged : ∀ t, start = t → Safe env names t := fun t same => watch.safe t fun _ _ => same ▸ rfl
  have checks : Runs (Safe env names) (ExceptT.mk (pure (env.x509KeyPair certificate key)))
      (fun _ t => start = t ∧ env.x509KeyPair certificate key = .ok ()) (fun _ => True) start := by
    refine wp_done ?_
    cases checked : env.x509KeyPair certificate key with
    | ok value => exact ⟨rfl, rfl⟩
    | error e => trivial
  refine wp_try (wp_adapt checks) ?_ fun _ _ _ _ => trivial
  rintro _ _ _ ⟨rfl, fits⟩
  have opens : Runs (Safe env names) (act (.mkdirAll [])) (fun _ => Eq start) (Eq start) start := by
    refine @act_wp _ _ _ _ _ () (mkdirAll · []) (fun _ _ _ => rfl) ?_ unchanged rfl
    rintro _ _ rfl made
    cases made
    exact ⟨unchanged _ rfl, rfl⟩
  refine wp_try (wp_adapt opens) ?_ fun _ _ _ _ => trivial
  rintro _ _ _ rfl
  refine wp_try (wp_adapt (store_wp known watch)) ?_ fun _ _ _ _ => trivial
  rintro _ t _ ⟨kept, store⟩
  refine wp_try (wp_adapt (version_wp watch kept store)) ?_ fun _ _ _ _ => trivial
  rintro _ t _ ⟨suffix, rfl, fresh, prepared⟩
  let j : Job := ⟨env, names, start, paths, suffix, certificate, key⟩
  have apart : j.Apart := ⟨watch, fresh⟩
  have safe : ∀ t, j.Switched t → Safe env names t :=
    fun t switched => switched.safe (version_plain suffix) fits known pair
  have installs := orElse_wp (installVersion_wp apart safe prepared)
    fun t failed => cleanup_wp apart failed
  refine wp_try installs ?_ fun _ _ _ _ => trivial
  intro _ t _ switched
  obtain ⟨certStore, keyStore⟩ := known.ne_store
  obtain ⟨differ, certStaged, keyStaged⟩ := names.apart
  have linksCert := link_wp certStore ⟨staged_ne _, keyStaged⟩ (fun _ => rfl)
    (fun same => absurd same.symm differ) safe switched
  refine wp_try (wp_adapt linksCert) ?_ fun _ _ _ _ => trivial
  intro _ t _ switched
  have linksKey := link_wp keyStore ⟨certStaged, staged_ne _⟩ (fun same => absurd same differ)
    (fun _ => rfl) safe switched
  refine wp_try (wp_adapt linksKey) ?_ fun _ _ _ _ => trivial
  intro _ t _ switched
  refine wp_lift (look_wp (fun _ _ => rfl) safe switched) fun entries t _ switched => ?_
  cases entries with
  | error e => exact wp_success trivial
  | ok entries =>
    exact wp_mono (fun _ _ _ _ => trivial) (removeVersions_wp safe entries switched)

end Install

/-- In a known layout with a matching pair, wherever an installation that keeps the version in
use ends, by an error, by a kill or by success: unless exactly one of the stable paths is a
link by then, they hold a matching pair. -/
theorem stable_paths_match (env : Env) (names : Names) (start : LinkedTree Bytes)
    (known : Documented names start) (pair : Matches env names start) (certificate key : Bytes)
    (fates : List Fate)
    (meets : (writeCertificateFiles env names certificate key).run.RunMeets exec KeepsLive fates
      start)
    (alike :
      CertLinked names ((writeCertificateFiles env names certificate key).run.run exec fates start).2 ↔
      KeyLinked names ((writeCertificateFiles env names certificate key).run.run exec fates start).2) :
    Matches env names
      ((writeCertificateFiles env names certificate key).run.run exec fates start).2 := by
  obtain ⟨paths, watch⟩ := known.watch pair
  have safe : Safe env names start := watch.safe start fun _ _ => rfl
  exact (run_sound (fun _ => rfl) safe meets (writeCertificateFiles_wp known pair watch)).1 alike

namespace Sample

/-- A certificate and a key match if they are the same. -/
def env : Env where
  x509KeyPair certificate key := if certificate = key then .ok () else .error "mismatch"

def names : Names where
  cert := "site.crt"
  key := "site.key"

/-- Plain files, as another tool has left them. -/
def files : LinkedTree Bytes where
  entries := [(["site.crt"], .file [1]), (["site.key"], .file [1])]

/-- What an earlier installation has left. -/
def links : LinkedTree Bytes where
  entries :=
    [(["site.crt"], .link certTarget), (["site.key"], .link keyTarget), (storeDir, .dir),
      (["current", ".certstore"], .link ["v-1"]), (["v-1", ".certstore"], .dir),
      (["cert.pem", "v-1", ".certstore"], .file [1]), (["key.pem", "v-1", ".certstore"], .file [1])]

def fates (count : Nat) : List Fate := List.replicate count { suffix := "2" }

def install (fates : List Fate) (start : LinkedTree Bytes) : LinkedTree Bytes :=
  ((writeCertificateFiles env names [2] [2]).run.run exec fates start).2

/-- Two contents decide whether the paths hold a pair. -/
theorem matches_iff {c k : Bytes} (cert : content t ["site.crt"] = some c)
    (key : content t ["site.key"] = some k) : Matches env names t ↔ c = k := by
  simp only [Matches, names, cert, key, env]
  by_cases same : c = k <;> simp [same]

end Sample

theorem migrated_paths_match :
    content (Sample.install (Sample.fates 23) Sample.files) ["site.crt"] = some [2] ∧
      Matches Sample.env Sample.names (Sample.install (Sample.fates 23) Sample.files) := by
  refine ⟨by decide +kernel, stable_paths_match Sample.env Sample.names Sample.files ?_ ?_ [2] [2]
    (Sample.fates 23) (by decide +kernel) (by decide +kernel)⟩
  · exact ⟨.inr ⟨[1], rfl⟩, .inr ⟨[1], rfl⟩, .inl rfl, fun linked _ => by cases linked⟩
  · exact (Sample.matches_iff (c := [1]) (k := [1]) (by decide +kernel) (by decide +kernel)).mpr rfl

/-- A kill after the certificate's path was replaced leaves the new certificate with the old
key. And if the store cannot be synced after the switch, the version in use is removed. -/
theorem stable_paths_mismatch :
    (Matches Sample.env Sample.names Sample.files ∧
      content (Sample.install (Sample.fates 16) Sample.files) ["site.crt"] = some [2] ∧
      content (Sample.install (Sample.fates 16) Sample.files) ["site.key"] = some [1] ∧
      ¬ Matches Sample.env Sample.names (Sample.install (Sample.fates 16) Sample.files)) ∧
    Matches Sample.env Sample.names Sample.links ∧
      content (Sample.install (Sample.fates 11 ++ [{ ok := false }, { suffix := "2" }]) Sample.links)
        ["site.crt"] = none := by
  have cert : content (Sample.install (Sample.fates 16) Sample.files) ["site.crt"] = some [2] := by
    decide +kernel
  have key : content (Sample.install (Sample.fates 16) Sample.files) ["site.key"] = some [1] := by
    decide +kernel
  refine ⟨⟨?_, cert, key, ?_⟩, ?_, by decide +kernel⟩
  · exact (Sample.matches_iff (c := [1]) (k := [1]) (by decide +kernel) (by decide +kernel)).mpr rfl
  · exact fun pair => absurd ((Sample.matches_iff cert key).mp pair) (by decide)
  · exact (Sample.matches_iff (c := [1]) (k := [1]) (by decide +kernel) (by decide +kernel)).mpr rfl

end TrojanGo.Deploy
