import IMail.Mail.Fetch

/-!
# Selected folders

`targets_for_policy` plans a selected folder that plays a role as that role, and
`resolve_sync_mailbox` leads a role to the first folder that plays it. A custom folder is planned
by its path, which may look like the key of a role.
-/

namespace IMail

open Text

section

variable [Platform]

def SyncMailboxFolder.role (f : SyncMailboxFolder) : String := mailboxRoleFor f.path f.specialUse

def FirstInbox (folders : List SyncMailboxFolder) (f : SyncMailboxFolder) : Prop :=
  (folders.find? fun g => eqIgnoreAsciiCase g.path "INBOX" && g.selectable) = some f

def FirstOfRole (folders : List SyncMailboxFolder) (role : String) (f : SyncMailboxFolder) : Prop :=
  (folders.find? fun g => g.selectable && g.role == role) = some f

/-- A selectable folder that the policy lists. -/
structure Chosen (folders : List SyncMailboxFolder) (selected : List String)
    (f : SyncMailboxFolder) : Prop where
  mem : f ∈ folders
  selectable : f.selectable = true
  listed : f.path ∈ selected

/-- The targets lead to every chosen folder, and to no other but the inbox. -/
structure SyncsSelected (folders : List SyncMailboxFolder) (selected : List String)
    (targets : List SyncTarget) : Prop where
  reached : ∀ f, Chosen folders selected f →
    ∃ t ∈ targets, resolveSyncMailbox folders t = .ok f
  distinct : (targets.map targetKey).Nodup
  inbox : ⟨"inbox", none⟩ ∈ targets
  only : ∀ t ∈ targets, ∀ f, resolveSyncMailbox folders t = .ok f → f.selectable = true →
    f.path ∈ selected ∨ eqIgnoreAsciiCase f.path "INBOX" = true

def targetAt (folders : List SyncMailboxFolder) (requested : String) : Option SyncTarget :=
  (folders.find? fun f => f.path = requested && f.selectable).map (selectedTarget requested)

def firstKept (folders : List SyncMailboxFolder) (selected : List String) (key : String) :
    Option SyncTarget :=
  selected.findSome? fun requested => (targetAt folders requested).filter (targetKey · = key)

/-- The target is planned: of the listed folders with its key the first one has this target, and
the inbox does not have the key. -/
def IsPlanned (folders : List SyncMailboxFolder) (selected : List String) (t : SyncTarget) : Prop :=
  targetKey t ≠ rolePlaceholder "inbox" ∧ firstKept folders selected (targetKey t) = some t

/-- Every chosen folder is the one that its target leads to. -/
structure RolesApart (folders : List SyncMailboxFolder) (selected : List String) : Prop where
  /-- A chosen folder is the first inbox, or it is planned and the first folder of its role. -/
  first : ∀ f, Chosen folders selected f → FirstInbox folders f ∨
    IsPlanned folders selected (selectedTarget f.path f) ∧
      (f.role ≠ "custom" → FirstOfRole folders f.role f)
  /-- The role of a chosen inbox leads to a chosen folder. -/
  only : ∀ f, Chosen folders selected f → f.role ≠ "custom" →
    IsPlanned folders selected (selectedTarget f.path f) → ∀ g, FirstOfRole folders f.role g →
      g.path ∈ selected ∨ eqIgnoreAsciiCase g.path "INBOX" = true

variable {folders : List SyncMailboxFolder} {selected : List String} {f : SyncMailboxFolder}
  {t : SyncTarget}

theorem addSelected_cons (targets : List SyncTarget) (requested : String) :
    addSelected folders targets (requested :: selected) =
      match targetAt folders requested with
      | none => addSelected folders targets selected
      | some target =>
        if targets.any fun existing => targetKey existing = targetKey target then
          addSelected folders targets selected
        else addSelected folders (targets ++ [target]) selected := by
  rw [addSelected, targetAt]
  cases folders.find? fun f => f.path = requested && f.selectable <;> rfl

variable {targets : List SyncTarget} {role requested : String} {g : SyncMailboxFolder}

theorem mem_addSelected :
    t ∈ addSelected folders targets selected ↔
      t ∈ targets ∨ (∀ u ∈ targets, targetKey u ≠ targetKey t) ∧
        firstKept folders selected (targetKey t) = some t := by
  induction selected generalizing targets with
  | nil => simp [addSelected, firstKept]
  | cons requested rest ih =>
    rw [addSelected_cons, firstKept, List.findSome?_cons]
    cases hat : targetAt folders requested with
    | none => simpa [firstKept] using ih
    | some target =>
      dsimp only
      split_ifs with hany
      · obtain ⟨u, hu, hkey⟩ := List.any_eq_true.mp hany
        have hkey : targetKey u = targetKey target := of_decide_eq_true hkey
        rw [ih]
        by_cases hown : targetKey target = targetKey t
        · -- Neither list adds a target of this key.
          have hno : ¬∀ v ∈ targets, targetKey v ≠ targetKey t :=
            fun h => h u hu (hkey.trans hown)
          simp [hno]
        · have hskip : (some target).filter (targetKey · = targetKey t) = none := by
            simp [Option.filter, hown]
          rw [hskip]
          rfl
      · have hnew : ∀ u ∈ targets, targetKey u ≠ targetKey target := by
          simpa using hany
        rw [ih]
        by_cases hown : targetKey target = targetKey t
        · simp only [List.mem_append, List.mem_singleton, hown, Option.filter_some, decide_true,
            if_true, Option.some.injEq]
          constructor
          · rintro ((h | rfl) | ⟨h, _⟩)
            · exact Or.inl h
            · exact Or.inr ⟨hnew, rfl⟩
            · exact absurd hown (h target (Or.inr rfl))
          · rintro (h | ⟨_, rfl⟩)
            · exact Or.inl (Or.inl h)
            · exact Or.inl (Or.inr rfl)
        · have hne : t ≠ target := fun h => hown (by rw [h])
          have hskip : (some target).filter (targetKey · = targetKey t) = none := by
            simp [Option.filter, hown]
          rw [hskip]
          simp [hown, hne, or_imp, forall_and, firstKept]

theorem nodup_addSelected (h : (targets.map targetKey).Nodup) :
    ((addSelected folders targets selected).map targetKey).Nodup := by
  induction selected generalizing targets with
  | nil => exact h
  | cons requested rest ih =>
    rw [addSelected_cons]
    cases targetAt folders requested with
    | none => exact ih h
    | some target =>
      dsimp only
      split_ifs with hany
      · exact ih h
      · apply ih
        rw [List.map_append]
        apply List.Nodup.append h (List.nodup_singleton _)
        intro key hkey htarget
        obtain ⟨u, hu, rfl⟩ := List.mem_map.mp hkey
        exact hany (List.any_eq_true.mpr ⟨u, hu, decide_eq_true (List.mem_singleton.mp htarget)⟩)

theorem resolve_inbox :
    resolveSyncMailbox folders ⟨"inbox", none⟩ = .ok f ↔
      FirstInbox folders f ∨ f = inboxFolder ∧
        ∀ g ∈ folders, (eqIgnoreAsciiCase g.path "INBOX" && g.selectable) = false := by
  simp only [resolveSyncMailbox, FirstInbox, if_true, Except.ok.injEq]
  cases hfound : folders.find? fun g => eqIgnoreAsciiCase g.path "INBOX" && g.selectable with
  | none =>
    rw [List.find?_eq_none] at hfound
    constructor
    · intro h
      exact Or.inr ⟨h.symm, fun g hg => Bool.eq_false_iff.mpr (hfound g hg)⟩
    · rintro (h | ⟨rfl, _⟩)
      · cases h
      · rfl
  | some found =>
    have hsel := List.find?_some hfound
    constructor
    · rintro rfl
      exact Or.inl rfl
    · rintro (h | ⟨_, hnone⟩)
      · cases h
        rfl
      · rw [hnone found (List.mem_of_find?_eq_some hfound)] at hsel
        cases hsel

theorem resolve_role (hrole : role ≠ "inbox") :
    resolveSyncMailbox folders ⟨role, none⟩ = .ok f ↔ FirstOfRole folders role f := by
  simp only [resolveSyncMailbox, if_neg hrole, FirstOfRole, SyncMailboxFolder.role]
  cases folders.find? fun g => g.selectable && mailboxRoleFor g.path g.specialUse == role <;> simp

theorem resolve_path :
    resolveSyncMailbox folders ⟨role, some requested⟩ = .ok f ↔
      (folders.find? fun g => g.path == requested && g.selectable) = some f := by
  simp only [resolveSyncMailbox]
  cases folders.find? fun g => g.path == requested && g.selectable <;> simp

theorem role_of_firstOfRole (h : FirstOfRole folders role f) : f.role = role := by
  have hsel := List.find?_some h
  rw [Bool.and_eq_true, beq_iff_eq] at hsel
  exact hsel.2

variable (hpaths : (folders.map (·.path)).Nodup)

include hpaths

omit [Platform] in
theorem find?_path (hmem : f ∈ folders) (hsel : f.selectable = true) :
    (folders.find? fun g => g.path == f.path && g.selectable) = some f := by
  cases hfound : folders.find? fun g => g.path == f.path && g.selectable with
  | none =>
    have hnone := List.find?_eq_none.mp hfound f hmem
    rw [hsel, beq_self_eq_true] at hnone
    exact absurd rfl hnone
  | some g =>
    have hg := List.find?_some hfound
    rw [Bool.and_eq_true, beq_iff_eq] at hg
    rw [List.inj_on_of_nodup_map hpaths (List.mem_of_find?_eq_some hfound) hmem hg.1]

omit hpaths in
theorem chosen_of_targetAt (hmem : requested ∈ selected) (h : targetAt folders requested = some t) :
    ∃ g, Chosen folders selected g ∧ g.path = requested ∧ t = selectedTarget g.path g := by
  obtain ⟨g, hfound, rfl⟩ := Option.map_eq_some_iff.mp h
  have hg := List.find?_some hfound
  rw [Bool.and_eq_true, decide_eq_true_eq] at hg
  obtain ⟨rfl, hsel⟩ := hg
  exact ⟨g, ⟨List.mem_of_find?_eq_some hfound, hsel, hmem⟩, rfl, rfl⟩

omit hpaths in
theorem mem_plan :
    t ∈ addSelected folders [⟨"inbox", none⟩] selected ↔ t = ⟨"inbox", none⟩ ∨
      ∃ f, Chosen folders selected f ∧ t = selectedTarget f.path f ∧ IsPlanned folders selected t := by
  rw [mem_addSelected, List.mem_singleton]
  simp only [List.mem_singleton, forall_eq]
  apply or_congr_right
  constructor
  · rintro ⟨hkey, hkept⟩
    obtain ⟨requested, hmem, hat⟩ := List.exists_of_findSome?_eq_some hkept
    have hat := (Option.filter_eq_some_iff.mp hat).1
    obtain ⟨g, hg, _, ht⟩ := chosen_of_targetAt hmem hat
    exact ⟨g, hg, ht, hkey.symm, hkept⟩
  · rintro ⟨f, _, _, hkey, hkept⟩
    exact ⟨hkey.symm, hkept⟩

omit hpaths in
theorem selectedTarget_custom (hrole : f.role = "custom") :
    selectedTarget f.path f = ⟨"custom", some f.path⟩ := by
  rw [SyncMailboxFolder.role] at hrole
  simp [selectedTarget, hrole]

omit hpaths in
theorem selectedTarget_role (hrole : f.role ≠ "custom") :
    selectedTarget f.path f = ⟨f.role, none⟩ := by
  rw [SyncMailboxFolder.role] at *
  simp [selectedTarget, hrole]

omit hpaths in
theorem resolve_planned (hrole : f.role ≠ "custom")
    (h : IsPlanned folders selected (selectedTarget f.path f)) :
    resolveSyncMailbox folders (selectedTarget f.path f) = .ok g ↔ FirstOfRole folders f.role g := by
  rw [selectedTarget_role hrole] at *
  apply resolve_role
  intro hinbox
  exact h.1 (by rw [hinbox]; rfl)

theorem resolve_custom (hf : Chosen folders selected f) (hrole : f.role = "custom") :
    resolveSyncMailbox folders (selectedTarget f.path f) = .ok g ↔ f = g := by
  rw [selectedTarget_custom hrole, resolve_path, find?_path hpaths hf.mem hf.selectable,
    Option.some.injEq]

omit hpaths in
theorem firstInbox_of_resolve (hf : Chosen folders selected f)
    (h : resolveSyncMailbox folders ⟨"inbox", none⟩ = .ok f) : FirstInbox folders f := by
  rcases resolve_inbox.mp h with hfirst | ⟨rfl, hnone⟩
  · exact hfirst
  · have hfalse := hnone _ hf.mem
    have hinbox : (eqIgnoreAsciiCase inboxFolder.path "INBOX" && inboxFolder.selectable) = true := by
      simp [eqIgnoreAsciiCase, inboxFolder]
    rw [hinbox] at hfalse
    cases hfalse

theorem RolesApart.of_syncs
    (h : SyncsSelected folders selected (addSelected folders [⟨"inbox", none⟩] selected)) :
    RolesApart folders selected := by
  constructor
  · intro f hf
    obtain ⟨t, ht, hresolve⟩ := h.reached f hf
    rcases mem_plan.mp ht with rfl | ⟨g, hg, rfl, hplanned⟩
    · exact Or.inl (firstInbox_of_resolve hf hresolve)
    · right
      by_cases hrole : g.role = "custom"
      · obtain rfl := (resolve_custom hpaths hg hrole).mp hresolve
        exact ⟨hplanned, fun hnot => absurd hrole hnot⟩
      · have hfirst := (resolve_planned hrole hplanned).mp hresolve
        have hsame := role_of_firstOfRole hfirst
        rw [selectedTarget_role hrole, ← hsame, ← selectedTarget_role (hsame ▸ hrole)] at hplanned
        exact ⟨hplanned, fun _ => hsame.symm ▸ hfirst⟩
  · intro f hf hrole hplanned g hg
    have hsel := List.find?_some hg
    rw [Bool.and_eq_true] at hsel
    exact h.only _ (mem_plan.mpr (Or.inr ⟨f, hf, rfl, hplanned⟩)) g
      ((resolve_planned hrole hplanned).mpr hg) hsel.1

theorem RolesApart.syncs (h : RolesApart folders selected) :
    SyncsSelected folders selected (addSelected folders [⟨"inbox", none⟩] selected) := by
  constructor
  · intro f hf
    rcases h.first f hf with hinbox | ⟨hplanned, hfirst⟩
    · exact ⟨_, mem_plan.mpr (Or.inl rfl), resolve_inbox.mpr (Or.inl hinbox)⟩
    · refine ⟨_, mem_plan.mpr (Or.inr ⟨f, hf, rfl, hplanned⟩), ?_⟩
      by_cases hrole : f.role = "custom"
      · exact (resolve_custom hpaths hf hrole).mpr rfl
      · exact (resolve_planned hrole hplanned).mpr (hfirst hrole)
  · exact nodup_addSelected (List.nodup_singleton _)
  · exact mem_plan.mpr (Or.inl rfl)
  · intro t ht g hresolve _
    rcases mem_plan.mp ht with rfl | ⟨f, hf, rfl, hplanned⟩
    · right
      rcases resolve_inbox.mp hresolve with hfirst | ⟨rfl, _⟩
      · have hsel := List.find?_some hfirst
        rw [Bool.and_eq_true] at hsel
        exact hsel.1
      · simp [eqIgnoreAsciiCase, inboxFolder]
    · by_cases hrole : f.role = "custom"
      · obtain rfl := (resolve_custom hpaths hf hrole).mp hresolve
        exact Or.inl hf.listed
      · exact h.only f hf hrole hplanned g ((resolve_planned hrole hplanned).mp hresolve)

omit hpaths in
/-- A policy with selected folders synchronizes exactly those, and the inbox, if and only if every
one of them is the folder that its role leads to and no path stands for a role. -/
theorem selected_folders_synced_iff (account : Account) (policy : SyncPolicy)
    (hmode : policy.folderMode = .selected) (hpaths : (account.mailboxes.map (·.path)).Nodup) :
    SyncsSelected account.mailboxes policy.selectedMailboxes (targetsForPolicy account policy) ↔
      RolesApart account.mailboxes policy.selectedMailboxes := by
  rw [targetsForPolicy, hmode]
  exact ⟨RolesApart.of_syncs hpaths, RolesApart.syncs hpaths⟩

end

def selectionAccount (folders : List SyncMailboxFolder) : Account :=
  { id := "a", userId := "u", email := "a@example.org", createdAt := 0, mailboxes := folders }

def selectionPolicy (selected : List String) : SyncPolicy :=
  { accountId := "a", enabled := true, folderMode := .selected, selectedMailboxes := selected,
    notifyOnError := true, updatedAt := 0 }

def namedFolder (path : String) : SyncMailboxFolder := ⟨path, path, "/", none, true, true, none, none⟩

theorem selected_folders_synced_work :
    let _ := Platform.plain
    let folders := [namedFolder "INBOX", namedFolder "Sent", namedFolder "Work"]
    SyncsSelected folders ["Work", "Sent"]
      (targetsForPolicy (selectionAccount folders) (selectionPolicy ["Work", "Sent"])) := by
  intro platform folders
  refine (selected_folders_synced_iff (selectionAccount folders) (selectionPolicy ["Work", "Sent"])
    rfl (by decide)).mpr ?_
  have hsent : FirstOfRole folders (namedFolder "Sent").role (namedFolder "Sent") := by
    unfold FirstOfRole
    decide +kernel
  constructor
  · rintro f ⟨hmem, _, hlisted⟩
    right
    rcases List.mem_cons.mp hmem with rfl | hmem
    · exact absurd hlisted (by decide)
    rcases List.mem_cons.mp hmem with rfl | hmem
    · exact ⟨⟨by decide +kernel, by decide +kernel⟩, fun _ => hsent⟩
    · obtain rfl := List.mem_singleton.mp hmem
      exact ⟨⟨by decide +kernel, by decide +kernel⟩, fun h => absurd (by decide +kernel) h⟩
  · rintro f ⟨hmem, _, hlisted⟩ hrole _ g hg
    left
    rcases List.mem_cons.mp hmem with rfl | hmem
    · exact absurd hlisted (by decide)
    rcases List.mem_cons.mp hmem with rfl | hmem
    · obtain rfl := Option.some.inj (hsent.symm.trans hg)
      decide
    · obtain rfl := List.mem_singleton.mp hmem
      exact absurd (by decide +kernel) hrole

/-- `Sent Items` is selected, and the role that is planned for it leads to `Sent`. -/
theorem second_sent_folder_not_synced :
    let _ := Platform.plain
    let folders := [namedFolder "INBOX", namedFolder "Sent", namedFolder "Sent Items"]
    ¬SyncsSelected folders ["Sent Items"]
      (targetsForPolicy (selectionAccount folders) (selectionPolicy ["Sent Items"])) := by
  intro platform folders h
  obtain ⟨t, ht, hresolve⟩ := h.reached (namedFolder "Sent Items") ⟨by decide, rfl, by decide⟩
  have htargets : targetsForPolicy (selectionAccount folders) (selectionPolicy ["Sent Items"]) =
      [⟨"inbox", none⟩, ⟨"sent", none⟩] := by
    decide +kernel
  rw [htargets] at ht
  rcases List.mem_cons.mp ht with rfl | ht
  · exact absurd (resolve_inbox.mp hresolve) (by unfold FirstInbox; decide +kernel)
  · obtain rfl := List.mem_singleton.mp ht
    exact absurd ((resolve_role (by decide)).mp hresolve) (by unfold FirstOfRole; decide +kernel)

end IMail
