import DukeX.CloudSaves.Manifest

/-!
# The listing of the remote saves

When the manifest names no save, a pull takes the titles from a JSON listing of any shape.
-/

namespace DukeX.CloudSaves

open DukeX.Lib DukeX.Swift DukeX.Fatx

structure NSNumber where
  boolValue : Bool
  intValue : Int
  stringValue : String

inductive JSON where
  | null
  | number (value : NSNumber)
  | string (value : String)
  | array (elements : List JSON)
  | object (pairs : List (String × JSON))

abbrev Dictionary := List (String × JSON)

mutual

def JSON.objects : JSON → List Dictionary
  | .null => []
  | .number _ => []
  | .string _ => []
  | .array elements => objectsAll elements
  | .object pairs => pairs :: objectsOf pairs

def objectsAll : List JSON → List Dictionary
  | [] => []
  | value :: rest => value.objects ++ objectsAll rest

def objectsOf : List (String × JSON) → List Dictionary
  | [] => []
  | (_, value) :: rest => value.objects ++ objectsOf rest

end

/-! ## The fields of an object -/

def titleIDKeys : List String :=
  ["title_id", "titleid", "title_id_hex", "titleidhex", "game_title_id", "gametitleid"]
def consoleIDKeys : List String :=
  ["console_id", "consoleid", "source_console_id", "sourceconsoleid", "console"]
def noSyncKeys : List String := ["no_sync", "nosync", "no_sync_back", "nosyncback"]
def profileKeys : List String :=
  ["profile", "profile_key", "profilekey", "source_profile", "sourceprofile"]
def saveModifiedKeys : List String :=
  ["save_modified", "savemodified", "save_modified_unix", "savemodifiedunix", "modified",
    "modified_unix"]
def contentHashKeys : List String := ["content_hash", "contenthash", "hash"]
def syncBackEnabledKeys : List String :=
  ["sync_back_enabled", "syncbackenabled", "sync_enabled", "syncenabled"]

section Fields

variable (F : Foundation) (T : TextRules)

def normalizedKey (key : String) : String :=
  (T.lowercased (T.trimmed key)).map fun c => if c = '-' then '_' else c

def normalizedTitleID (value : String) : Option String :=
  let normalized := F.uppercased (T.trimmed value)
  if isTitleID normalized then some normalized else none

def normalizedString (keys : List String) : Dictionary → Option String
  | [] => none
  | (key, value) :: rest =>
    if normalizedKey T key ∈ keys then
      match value with
      | .string text =>
        let trimmed := T.trimmed text
        if trimmed.isEmpty then normalizedString keys rest else some trimmed
      | .number number => some number.stringValue
      | _ => normalizedString keys rest
    else normalizedString keys rest

def normalizedInt (keys : List String) : Dictionary → Option Int
  | [] => none
  | (key, value) :: rest =>
    if normalizedKey T key ∈ keys then
      match value with
      | .number number => some number.intValue
      | .string text =>
        match intOf (T.trimmed text) with
        | some intValue => some intValue
        | none => normalizedInt keys rest
      | _ => normalizedInt keys rest
    else normalizedInt keys rest

def boolValue : JSON → Option Bool
  | .number number => some number.boolValue
  | .string text =>
    let text := T.lowercased (T.trimmed text)
    if text ∈ ["true", "yes", "1", "nosync"] then some true
    else if text ∈ ["false", "no", "0"] then some false
    else none
  | _ => none

def noSyncFlag (dictionary : Dictionary) : Bool :=
  dictionary.any fun (key, value) =>
    (decide (normalizedKey T key ∈ noSyncKeys) && boolValue T value == some true) ||
    (decide (normalizedKey T key ∈ syncBackEnabledKeys) && boolValue T value == some false)

def namedTitle (dictionary : Dictionary) : Option String :=
  (normalizedString T titleIDKeys dictionary).bind (normalizedTitleID F T)

def entryIn (dictionary : Dictionary) (inheritedConsoleID : Option String) (titleID : String) :
    CloudSaveRemoteEntry where
  consoleID := (normalizedString T consoleIDKeys dictionary).or inheritedConsoleID
  profile := normalizedString T profileKeys dictionary
  titleID := titleID
  noSync := noSyncFlag T dictionary
  saveModifiedUnix := normalizedInt T saveModifiedKeys dictionary
  contentHash := (normalizedString T contentHashKeys dictionary).map T.lowercased

mutual

def collectEntries (inheritedConsoleID : Option String) : JSON → List CloudSaveRemoteEntry
  | .object pairs =>
    ((namedTitle F T pairs).map (entryIn T pairs inheritedConsoleID)).toList ++
      collectPairs (entryIn T pairs inheritedConsoleID)
        ((normalizedString T consoleIDKeys pairs).or inheritedConsoleID) pairs
  | .array elements => collectAll inheritedConsoleID elements
  | .null => []
  | .number _ => []
  | .string _ => []

def collectPairs (entry : String → CloudSaveRemoteEntry) (consoleID : Option String) :
    List (String × JSON) → List CloudSaveRemoteEntry
  | [] => []
  | (key, value) :: rest =>
    ((normalizedTitleID F T key).map entry).toList ++ collectEntries consoleID value ++
      collectPairs entry consoleID rest

def collectAll (inheritedConsoleID : Option String) : List JSON → List CloudSaveRemoteEntry
  | [] => []
  | value :: rest =>
    collectEntries inheritedConsoleID value ++ collectAll inheritedConsoleID rest

end

end Fields

def CloudSaveRemoteEntry.key (entry : CloudSaveRemoteEntry) : String :=
  entry.consoleID.getD "legacy" ++ ":" ++ entry.profile.getD "" ++ ":" ++ entry.titleID

def unseen (seen : List String) : List CloudSaveRemoteEntry → List CloudSaveRemoteEntry
  | [] => []
  | entry :: rest =>
    if entry.noSync then unseen seen rest
    else if entry.key ∈ seen then unseen seen rest
    else entry :: unseen (entry.key :: seen) rest

def remoteEntries (F : Foundation) (T : TextRules) (object : JSON) : List CloudSaveRemoteEntry :=
  unseen [] ((collectEntries F T none object).insertionSort
    fun a b => b.saveModifiedUnix.getD 0 ≤ a.saveModifiedUnix.getD 0)

def pulledTitles (localTitleIDs : List String) :
    List String → List CloudSaveRemoteEntry → List String
  | _, [] => []
  | handledTitleIDs, entry :: rest =>
    if entry.titleID ∈ handledTitleIDs then pulledTitles localTitleIDs handledTitleIDs rest
    else if entry.titleID ∈ localTitleIDs then
      pulledTitles localTitleIDs (entry.titleID :: handledTitleIDs) rest
    else entry.titleID :: pulledTitles localTitleIDs (entry.titleID :: handledTitleIDs) rest

/-! ## Which titles are found, and with which flag -/

section Titles

variable {F : Foundation} {T : TextRules}

def Finds (F : Foundation) (T : TextRules) (dictionary : Dictionary) (titleID : String) : Prop :=
  namedTitle F T dictionary = some titleID ∨
    ∃ pair ∈ dictionary, normalizedTitleID F T pair.1 = some titleID

def Owns (F : Foundation) (T : TextRules) (object : JSON) (dictionary : Dictionary)
    (titleID : String) : Prop :=
  dictionary ∈ object.objects ∧ (namedTitle F T dictionary = some titleID ∨
    ∃ outer ∈ object.objects, ∃ key, (key, JSON.object dictionary) ∈ outer ∧
      normalizedTitleID F T key = some titleID)

def MarkedNoSync (F : Foundation) (T : TextRules) (object : JSON) (titleID : String) : Prop :=
  ∃ dictionary, Owns F T object dictionary titleID ∧ noSyncFlag T dictionary = true

def Lists (entries : List CloudSaveRemoteEntry) (titleID : String) (noSync : Bool) : Prop :=
  ∃ entry ∈ entries, entry.titleID = titleID ∧ entry.noSync = noSync

def Site (F : Foundation) (T : TextRules) (objects : List Dictionary) (titleID : String)
    (noSync : Bool) : Prop :=
  ∃ dictionary ∈ objects, Finds F T dictionary titleID ∧ noSyncFlag T dictionary = noSync

variable {titleID : String} {noSync : Bool}

theorem lists_append {entries entries' : List CloudSaveRemoteEntry} : Lists (entries ++ entries') titleID noSync ↔
      Lists entries titleID noSync ∨ Lists entries' titleID noSync := by
  simp only [Lists, List.mem_append, or_and_right, exists_or]

theorem site_append {objects objects' : List Dictionary} :
    Site F T (objects ++ objects') titleID noSync ↔
      Site F T objects titleID noSync ∨ Site F T objects' titleID noSync := by
  simp only [Site, List.mem_append, or_and_right, exists_or]

theorem not_lists_nil : ¬ Lists [] titleID noSync :=
  fun ⟨_, h, _⟩ => nomatch h

theorem not_site_nil : ¬ Site F T [] titleID noSync :=
  fun ⟨_, h, _⟩ => nomatch h

theorem lists_toList {dictionary : Dictionary} {inherited found : Option String} : Lists (found.map (entryIn T dictionary inherited)).toList titleID noSync ↔
      found = some titleID ∧ noSyncFlag T dictionary = noSync := by
  simp [Lists, entryIn]

mutual

theorem lists_collectEntries (inherited : Option String) (object : JSON) (titleID : String)
    (noSync : Bool) : Lists (collectEntries F T inherited object) titleID noSync ↔
      Site F T object.objects titleID noSync := by
  cases object with
  | null | number value | string value => exact iff_of_false not_lists_nil not_site_nil
  | array elements =>
    simp [collectEntries, JSON.objects, lists_collectAll]
  | object pairs =>
    rw [collectEntries, JSON.objects, lists_append, lists_toList,
      lists_collectPairs pairs inherited _ pairs titleID noSync]
    simp only [Site, Finds, List.mem_cons, exists_eq_or_imp]
    rw [or_and_right, or_assoc]

theorem lists_collectPairs (dictionary : Dictionary) (inherited consoleID : Option String)
    (pairs : List (String × JSON)) (titleID : String) (noSync : Bool) :
    Lists (collectPairs F T (entryIn T dictionary inherited) consoleID pairs) titleID noSync ↔
      ((∃ pair ∈ pairs, normalizedTitleID F T pair.1 = some titleID) ∧
        noSyncFlag T dictionary = noSync) ∨ Site F T (objectsOf pairs) titleID noSync := by
  cases pairs with
  | nil => simp [collectPairs, objectsOf, Lists, Site]
  | cons pair rest =>
    obtain ⟨key, value⟩ := pair
    rw [collectPairs, objectsOf, lists_append, lists_append, lists_toList, site_append,
      lists_collectEntries consoleID value titleID noSync,
      lists_collectPairs dictionary inherited consoleID rest titleID noSync]
    simp only [List.mem_cons, exists_eq_or_imp]
    rw [or_and_right]
    exact or_or_or_comm

theorem lists_collectAll (inherited : Option String) (elements : List JSON) (titleID : String)
    (noSync : Bool) : Lists (collectAll F T inherited elements) titleID noSync ↔
      Site F T (objectsAll elements) titleID noSync := by
  cases elements with
  | nil => exact iff_of_false not_lists_nil not_site_nil
  | cons value rest =>
    rw [collectAll, objectsAll, lists_append, site_append,
      lists_collectEntries inherited value titleID noSync,
      lists_collectAll inherited rest titleID noSync]

end

/-! ## What the listing keeps -/

variable {titleID : String}

theorem isTitleID_of_normalizedTitleID {value : String}
    (h : normalizedTitleID F T value = some titleID) : isTitleID titleID = true := by
  unfold normalizedTitleID at h
  grind

theorem isTitleID_of_finds {dictionary : Dictionary}
    (h : Finds F T dictionary titleID) : isTitleID titleID = true := by
  rcases h with hnamed | ⟨pair, _, hkey⟩
  · obtain ⟨value, _, hvalue⟩ := Option.bind_eq_some_iff.mp hnamed
    exact isTitleID_of_normalizedTitleID hvalue
  · exact isTitleID_of_normalizedTitleID hkey

theorem titleID_eq_of_key_eq {a b : CloudSaveRemoteEntry} (ha : isTitleID a.titleID = true)
    (hb : isTitleID b.titleID = true) (h : a.key = b.key) : a.titleID = b.titleID := by
  simp only [isTitleID, Bool.and_eq_true, beq_iff_eq, ← String.length_toList] at ha hb
  have hlist := congrArg String.toList h
  simp only [CloudSaveRemoteEntry.key, String.toList_append] at hlist
  have htail := List.append_inj_right' hlist (ha.1.trans hb.1.symm)
  exact String.toList_inj.mp htail

variable {entries : List CloudSaveRemoteEntry}

theorem mem_of_mem_unseen {seen : List String}
    {entry : CloudSaveRemoteEntry} (h : entry ∈ unseen seen entries) :
    entry ∈ entries ∧ entry.noSync = false := by
  induction entries generalizing seen with
  | nil => cases h
  | cons first rest ih =>
    unfold unseen at h
    by_cases hflag : first.noSync = true
    · grind
    · rw [if_neg hflag] at h
      by_cases hseen : first.key ∈ seen
      · grind
      · grind

theorem exists_key_unseen {seen : List String} {entries : List CloudSaveRemoteEntry}
    {entry : CloudSaveRemoteEntry} (h : entry ∈ entries) (hflag : entry.noSync = false) :
    entry.key ∈ seen ∨ ∃ kept ∈ unseen seen entries, kept.key = entry.key := by
  induction entries generalizing seen with
  | nil => cases h
  | cons first rest ih =>
    unfold unseen
    by_cases hfirst : first.noSync = true
    · grind
    · rw [if_neg hfirst]
      by_cases hseen : first.key ∈ seen
      · grind
      · rw [if_neg hseen]
        cases List.mem_cons.mp h with
        | inl heq => exact .inr ⟨first, List.mem_cons_self, heq ▸ rfl⟩
        | inr hmem =>
          -- what the rest has seen is the first entry or something seen before
          rcases @ih (first.key :: seen) hmem with hkey | ⟨kept, hkept, hkey⟩
          · grind
          · exact .inr ⟨kept, List.mem_cons_of_mem _ hkept, hkey⟩

theorem mem_remoteEntries_iff (object : JSON) (titleID : String) :
    (∃ entry ∈ remoteEntries F T object, entry.titleID = titleID) ↔
      Site F T object.objects titleID false := by
  rw [← lists_collectEntries none]
  constructor
  · intro ⟨entry, hentry, htitle⟩
    obtain ⟨hmem, hflag⟩ := mem_of_mem_unseen hentry
    rw [List.mem_insertionSort] at hmem
    exact ⟨entry, hmem, htitle, hflag⟩
  · intro ⟨entry, hmem, htitle, hflag⟩
    have hsorted := (List.mem_insertionSort fun a b : CloudSaveRemoteEntry =>
      b.saveModifiedUnix.getD 0 ≤ a.saveModifiedUnix.getD 0).mpr hmem
    rcases @exists_key_unseen [] _ _ hsorted hflag with hnil | ⟨kept, hkept, hkey⟩
    · cases hnil
    · -- the entry that is kept in its place has the same title
      have hid : ∀ e ∈ collectEntries F T none object, isTitleID e.titleID = true := by
        intro e he
        obtain ⟨_, _, hfinds, _⟩ := (lists_collectEntries (F := F) (T := T) none object e.titleID
          e.noSync).mp ⟨e, he, rfl, rfl⟩
        exact isTitleID_of_finds hfinds
      have hkeptmem := (mem_of_mem_unseen hkept).1
      rw [List.mem_insertionSort] at hkeptmem
      exact ⟨kept, hkept, (titleID_eq_of_key_eq (hid kept hkeptmem) (hid entry hmem) hkey).trans
        htitle⟩

theorem mem_pulledTitles {localTitleIDs handledTitleIDs : List String} :
    titleID ∈ pulledTitles localTitleIDs handledTitleIDs entries ↔
      titleID ∉ handledTitleIDs ∧ titleID ∉ localTitleIDs ∧
        ∃ entry ∈ entries, entry.titleID = titleID := by
  induction entries generalizing handledTitleIDs with
  | nil => simp [pulledTitles]
  | cons first rest ih =>
    unfold pulledTitles
    by_cases hhandled : first.titleID ∈ handledTitleIDs
    · grind
    · grind

end Titles

/-- **When a title marked no-sync is not pulled.** No pull downloads a title that an object of its
own marks no-sync exactly when every object in which the parser finds such a title, as a field or
as a key, carries the flag itself. -/
theorem noSync_not_pulled_iff (F : Foundation) (T : TextRules) (object : JSON) :
    (∀ localTitleIDs, ∀ titleID ∈ pulledTitles localTitleIDs [] (remoteEntries F T object),
      ¬ MarkedNoSync F T object titleID) ↔
    ∀ titleID, MarkedNoSync F T object titleID → ∀ dictionary ∈ object.objects,
      Finds F T dictionary titleID → noSyncFlag T dictionary = true := by
  constructor
  · intro h titleID hmarked dictionary hmem hfinds
    by_contra hflag
    have hlisted := (mem_remoteEntries_iff (F := F) (T := T) object titleID).mpr
      ⟨dictionary, hmem, hfinds, by simpa using hflag⟩
    exact h [] titleID (mem_pulledTitles.mpr ⟨by simp, by simp, hlisted⟩) hmarked
  · intro h localTitleIDs titleID hpulled hmarked
    obtain ⟨_, _, hlisted⟩ := mem_pulledTitles.mp hpulled
    obtain ⟨dictionary, hmem, hfinds, hflag⟩ := (mem_remoteEntries_iff object titleID).mp hlisted
    rw [h titleID hmarked dictionary hmem hfinds] at hflag
    cases hflag

def keyedListing : JSON :=
  .object [("4D530004", .object [("no_sync", .number ⟨true, 1, "1"⟩)])]

theorem noSync_pulled_by_key :
    MarkedNoSync plainFoundation asciiText keyedListing "4D530004" ∧
      pulledTitles [] [] (remoteEntries plainFoundation asciiText keyedListing) = ["4D530004"] := by
  refine ⟨⟨[("no_sync", .number ⟨true, 1, "1"⟩)], ⟨?_, .inr ?_⟩, by decide +kernel⟩, by decide +kernel⟩
  · simp [keyedListing, JSON.objects, objectsOf]
  · refine ⟨[("4D530004", .object [("no_sync", .number ⟨true, 1, "1"⟩)])], ?_, "4D530004", ?_, ?_⟩
    · simp [keyedListing, JSON.objects, objectsOf]
    · simp
    · decide +kernel

end DukeX.CloudSaves
