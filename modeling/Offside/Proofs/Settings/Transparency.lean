import Offside.Settings.Load

namespace Offside

/-!
# The cache of settings is transparent

A cache keeps loaded settings under the file that was asked for and the variable at that
time, which together with the files, the homes and the reader of documents decide what is
loaded.  So as long as these stay as they were when the cache was cleared, a load through the
cache gives what a load without it gives, whatever was loaded, refused and evicted before.
The cache keeps the settings that were used last, as many as it has room for.
-/

namespace SettingsCache

/-- What settings are kept under: the file that was asked for, and the variable. -/
abbrev Key := Option Text × Option Text

/-- The keys of a cache, from the front. -/
def keys (cache : SettingsCache) : List Key :=
  cache.entries.map (·.1)

/-- What a program does between two clearings of the cache: it loads settings, or it gives
the variable another value. -/
inductive Request where
  | load (explicit : Option Text)
  | setVariable (value : Option Text)

/-- What happens around a cache: a request, a change of the surroundings in any way, or the
clearing of the cache. -/
inductive Event where
  | request (asked : Request)
  | change (surroundings : Surroundings)
  | clear

end SettingsCache

namespace Surroundings

open SettingsCache (Request)

/-- The surroundings once the variable has another value. -/
def withVariable (surroundings : Surroundings) (value : Option Text) : Surroundings :=
  { surroundings with settingsFile := value }

/-- The surroundings after a request. -/
def after (surroundings : Surroundings) : Request → Surroundings
  | .load _ => surroundings
  | .setVariable value => surroundings.withVariable value

/-- The answer to a request without a cache; only a load has one. -/
def answer? (surroundings : Surroundings) :
    Request → Option (Except SettingsError Settings)
  | .load explicit => some (Settings.load surroundings explicit)
  | .setVariable _ => none

/-- The answers to requests without a cache. -/
def answers (surroundings : Surroundings) :
    List Request → List (Option (Except SettingsError Settings))
  | [] => []
  | first :: rest => surroundings.answer? first :: (surroundings.after first).answers rest

end Surroundings

namespace SettingsCache

/-- A cache in its surroundings. -/
structure Host where
  cache : SettingsCache
  surroundings : Surroundings

namespace Host

/-- The answer to a request through the cache, and the cache in its surroundings after it. -/
def ask (host : Host) : Request → Option (Except SettingsError Settings) × Host
  | .load explicit =>
    let (answer, cache) := host.cache.load host.surroundings explicit
    (some answer, { host with cache })
  | .setVariable value =>
    (none, { host with surroundings := host.surroundings.withVariable value })

/-- The answers to requests through the cache. -/
def answers (host : Host) : List Request → List (Option (Except SettingsError Settings))
  | [] => []
  | first :: rest => (host.ask first).1 :: (host.ask first).2.answers rest

/-- The cache in its surroundings after requests. -/
def askAll (host : Host) (requests : List Request) : Host :=
  requests.foldl (fun host request => (host.ask request).2) host

/-- The cache in its surroundings after an event. -/
def handle (host : Host) : Event → Host
  | .request asked => (host.ask asked).2
  | .change surroundings => { host with surroundings }
  | .clear => { host with cache := .empty }

/-- The cache in its surroundings after events. -/
def handleAll (host : Host) (events : List Event) : Host :=
  events.foldl handle host

end Host

/-! ## The order of use -/

/-- Keys in the order of their last use, with one that is used now in front. -/
def promote (key : Key) (order : List Key) : List Key :=
  key :: order.filter (· != key)

/-- The keys of the loads that succeed among requests, in the order of their last use, the
latest first; behind them stand the keys that were used before. -/
def lastUsed (surroundings : Surroundings) (order : List Key) : List Request → List Key
  | [] => order
  | .load explicit :: rest =>
    match Settings.load surroundings explicit with
    | .error _ => lastUsed surroundings order rest
    | .ok _ =>
      lastUsed surroundings (promote (explicit, surroundings.settingsFile) order) rest
  | .setVariable value :: rest => lastUsed (surroundings.withVariable value) order rest

section

variable {order : List Key} {key : Key} {size : Nat}

theorem nodup_promote (distinct : order.Nodup) : (promote key order).Nodup := by
  refine List.nodup_cons.mpr ⟨?_, distinct.filter _⟩
  simp

/-- A key that is among the first ones comes to the front without a further one among them. -/
theorem take_promote_of_mem (distinct : order.Nodup) (member : key ∈ order.take (size + 1)) :
    (promote key order).take (size + 1) = promote key (order.take (size + 1)) := by
  rw [promote, promote, List.take_succ_cons]
  congr 1
  induction order generalizing size with
  | nil => simp
  | cons first rest hypothesis =>
    obtain ⟨fresh, distinct⟩ := List.nodup_cons.mp distinct
    by_cases isFirst : first = key
    · subst isFirst
      have unchanged (keys : List Key) (later : ∀ other ∈ keys, other ∈ rest) :
          keys.filter (· != first) = keys := by
        refine List.filter_eq_self.mpr fun other isOther => bne_iff_ne.mpr ?_
        rintro rfl
        exact fresh (later other isOther)
      simp [unchanged rest fun _ => id, unchanged (rest.take size) fun _ => List.mem_of_mem_take]
    · have later : key ∈ rest.take size := by
        simpa [Ne.symm isFirst] using member
      cases size with
      | zero => simp at later
      | succ size => simp [isFirst, hypothesis distinct later]

/-- A key that is not among the first ones comes to the front and pushes the last of them
out. -/
theorem take_promote_of_not_mem (absent : key ∉ order.take (size + 1)) :
    (promote key order).take (size + 1) = (key :: order.take (size + 1)).take (size + 1) := by
  rw [promote, List.take_succ_cons, List.take_succ_cons, List.take_take,
    Nat.min_eq_left (Nat.le_succ size)]
  congr 1
  induction order generalizing size with
  | nil => simp
  | cons first rest hypothesis =>
    simp only [List.take_succ_cons, List.mem_cons, not_or] at absent
    cases size with
    | zero => simp
    | succ size => simp [Ne.symm absent.1, hypothesis absent.2]

end

/-! ## One load -/

/-- How a load through a cache ends: the settings are found in the cache and come to its front,
or they are loaded, and kept in front unless they are refused. -/
inductive Loads (cache : SettingsCache) (surroundings : Surroundings) (explicit : Option Text) :
    Except SettingsError Settings × SettingsCache → Prop where
  | kept
      {settings : Settings} :
      ((explicit, surroundings.settingsFile), settings) ∈ cache.entries →
      Loads cache surroundings explicit
        (.ok settings,
          ⟨((explicit, surroundings.settingsFile), settings) ::
            cache.entries.filter (·.1 != (explicit, surroundings.settingsFile))⟩)
  | refused
      {error : SettingsError} :
      Settings.load surroundings explicit = .error error →
      Loads cache surroundings explicit (.error error, cache)
  | loaded
      {settings : Settings} :
      (explicit, surroundings.settingsFile) ∉ cache.keys →
      Settings.load surroundings explicit = .ok settings →
      Loads cache surroundings explicit
        (.ok settings,
          ⟨(((explicit, surroundings.settingsFile), settings) :: cache.entries).take capacity⟩)

theorem loads_load (cache : SettingsCache) (surroundings : Surroundings) (explicit : Option Text) :
    Loads cache surroundings explicit (cache.load surroundings explicit) := by
  unfold load
  dsimp only
  cases found : cache.entries.lookup (explicit, surroundings.settingsFile) with
  | some settings =>
    obtain ⟨before, after, split, _⟩ := List.lookup_eq_some_iff.mp found
    refine .kept ?_
    rw [split]
    simp
  | none =>
    cases answer : Settings.load surroundings explicit with
    | error error => exact .refused answer
    | ok settings =>
      refine .loaded (fun member => ?_) answer
      obtain ⟨entry, isEntry, same⟩ := List.mem_map.mp member
      have differs := List.lookup_eq_none_iff.mp found entry isEntry
      simp [same] at differs

/-- A cache holds what would be loaded with the variable of that time, and its keys are the
first ones in the order of their last use. -/
structure Sound (cache : SettingsCache) (surroundings : Surroundings) (order : List Key) :
    Prop where
  faithful : ∀ entry ∈ cache.entries,
    Settings.load (surroundings.withVariable entry.1.2) entry.1.1 = .ok entry.2
  distinct : order.Nodup
  recent : cache.keys = order.take capacity

theorem sound_empty (surroundings : Surroundings) : Sound .empty surroundings [] where
  faithful entry member := by cases member
  distinct := .nil
  recent := rfl

namespace Loads

variable {cache : SettingsCache} {surroundings : Surroundings} {explicit : Option Text}
  {order : List Key} {outcome : Except SettingsError Settings × SettingsCache}

/-- A sound cache answers as a load without it does. -/
theorem answer
    (loads : Loads cache surroundings explicit outcome)
    (sound : cache.Sound surroundings order) :
    outcome.1 = Settings.load surroundings explicit := by
  cases loads with
  | kept member => exact (sound.faithful _ member).symm
  | refused answer | loaded _ answer => exact answer.symm

/-- A load that is refused changes neither the cache nor the order of use. -/
theorem sound_of_error
    {error : SettingsError}
    (loads : Loads cache surroundings explicit outcome)
    (sound : cache.Sound surroundings order)
    (answer : Settings.load surroundings explicit = .error error) :
    outcome.2.Sound surroundings order := by
  cases loads with
  | kept member => cases answer.symm.trans (sound.faithful _ member)
  | refused => exact sound
  | loaded _ loaded => cases answer.symm.trans loaded

/-- A load that succeeds brings its key to the front of the cache and of the order of use. -/
theorem sound_of_ok
    {settings : Settings}
    (loads : Loads cache surroundings explicit outcome)
    (sound : cache.Sound surroundings order)
    (answer : Settings.load surroundings explicit = .ok settings) :
    outcome.2.Sound surroundings
      (promote (explicit, surroundings.settingsFile) order) := by
  cases loads with
  | kept member =>
    refine ⟨fun entry isEntry => ?_, nodup_promote sound.distinct, ?_⟩
    · rcases List.mem_cons.mp isEntry with rfl | isOther
      · exact sound.faithful _ member
      · exact sound.faithful entry (List.mem_filter.mp isOther).1
    · have among : (explicit, surroundings.settingsFile) ∈ order.take capacity :=
        sound.recent ▸ List.mem_map_of_mem member
      have promoted : (promote _ order).take capacity = promote _ (order.take capacity) :=
        take_promote_of_mem sound.distinct among
      rw [promoted, ← sound.recent, promote, keys, List.map_cons, keys, List.filter_map]
      rfl
  | refused refused => cases answer.symm.trans refused
  | loaded absent loaded =>
    refine ⟨fun entry isEntry => ?_, nodup_promote sound.distinct, ?_⟩
    · rcases List.mem_cons.mp (List.mem_of_mem_take isEntry) with rfl | isOther
      · exact loaded
      · exact sound.faithful entry isOther
    · rw [sound.recent] at absent
      have promoted : (promote _ order).take capacity =
          (_ :: order.take capacity).take capacity :=
        take_promote_of_not_mem absent
      rw [promoted, ← sound.recent, keys, List.map_take, List.map_cons]
      rfl

end Loads

/-! ## Requests -/

namespace Host

variable {host : Host} {order : List Key}

/-- Whether the cache is sound in its surroundings, with the keys in an order of use. -/
def Sound (host : Host) (order : List Key) : Prop :=
  host.cache.Sound host.surroundings order

/-- What the variable is now does not matter to what is kept. -/
theorem Sound.setVariable (sound : host.Sound order) (value : Option Text) :
    (host.ask (.setVariable value)).2.Sound order :=
  ⟨sound.faithful, sound.distinct, sound.recent⟩

/-- A sound cache answers requests as if nothing was kept, and what it keeps in the end are
the settings that were used last. -/
theorem Sound.askAll (sound : host.Sound order) (requests : List Request) :
    host.answers requests = host.surroundings.answers requests ∧
      (host.askAll requests).cache.keys =
        (lastUsed host.surroundings order requests).take capacity := by
  induction requests generalizing host order with
  | nil => exact ⟨rfl, sound.recent⟩
  | cons first rest hypothesis =>
    cases first with
    | setVariable value =>
      obtain ⟨answered, kept⟩ := hypothesis (sound.setVariable value)
      exact ⟨congrArg (none :: ·) answered, kept⟩
    | load explicit =>
      have loads := loads_load host.cache host.surroundings explicit
      have answered : (host.ask (.load explicit)).1 =
          host.surroundings.answer? (.load explicit) :=
        congrArg some (loads.answer sound)
      rw [answers, Surroundings.answers, lastUsed, answered]
      cases direct : Settings.load host.surroundings explicit with
      | error error =>
        have next : (host.ask (.load explicit)).2.Sound order :=
          loads.sound_of_error sound direct
        obtain ⟨later, kept⟩ := hypothesis next
        exact ⟨congrArg (_ :: ·) later, kept⟩
      | ok settings =>
        have next : (host.ask (.load explicit)).2.Sound
            (promote (explicit, host.surroundings.settingsFile) order) :=
          loads.sound_of_ok sound direct
        obtain ⟨later, kept⟩ := hypothesis next
        exact ⟨congrArg (_ :: ·) later, kept⟩

theorem sound_clear (host : Host) : (host.handle .clear).Sound [] :=
  sound_empty host.surroundings

end Host

end SettingsCache

/-- The cache of settings is transparent.  Whatever happened before, after the cache is cleared
each load through it gives the settings or the error that a load without it would give in the
surroundings of that moment, as long as a program only loads settings and changes the variable.
The keys that the cache holds then are those of the last loads that succeeded, as many as it
has room for; all others have been evicted. -/
theorem settings_cache_is_transparent
    (host : SettingsCache.Host)
    (earlier : List SettingsCache.Event)
    (requests : List SettingsCache.Request) :
    let cleared := host.handleAll (earlier ++ [.clear])
    cleared.answers requests = cleared.surroundings.answers requests ∧
      (cleared.askAll requests).cache.keys =
        (SettingsCache.lastUsed cleared.surroundings [] requests).take
          SettingsCache.capacity := by
  intro cleared
  have sound : cleared.Sound [] := by
    have last : cleared = (host.handleAll earlier).handle .clear := List.foldl_append ..
    rw [last]
    exact SettingsCache.Host.sound_clear _
  exact sound.askAll requests

end Offside
