import IMail.Store.CommitTables
import IMail.Sync.MailboxFrame

/-!
# What the cache holds after a commit

The cache keeps the 5000 newest rows of an account. Which rows compete for the places can be said by
the rows that are cached and by the plan: the messages of the plan that no later one replaces, and
the rows that the plan neither removes nor replaces.
-/

namespace IMail

open Relational

variable {plan : MailboxSyncPlan} {incoming messages : List Message} {m : Message}

/-- The rows of the plan's account among which the newest stay. An id that another account has a row
under leaves the row to that account. -/
def plannedRows (messages : List Message) (plan : MailboxSyncPlan) : List Message :=
  ((survivors plan plan.incoming).filter fun n =>
    messages.all fun m => m.id ≠ n.id || m.accountId == plan.accountId) ++
  messages.filter fun m =>
    m.accountId == plan.accountId && !stale plan m && untouched plan plan.incoming m

def AmongNewest (messages : List Message) (plan : MailboxSyncPlan) (r : Message) : Prop :=
  ((plannedRows messages plan).filter fun n => newerThan n r).length < cacheLimit

instance (messages : List Message) (plan : MailboxSyncPlan) (r : Message) :
    Decidable (AmongNewest messages plan r) := inferInstanceAs (Decidable (_ < _))

def Message.age (m : Message) : String × String := (m.date, m.id)

theorem newerThan_congr {a b c d : Message} (hac : a.age = c.age) (hbd : b.age = d.age) :
    newerThan a b = newerThan c d := by
  simp only [Message.age, Prod.mk.injEq] at hac hbd
  simp only [newerThan, hac, hbd]

theorem AmongNewest.congr {r s : Message} (h : AmongNewest messages plan r) (hrs : r.age = s.age) :
    AmongNewest messages plan s := by
  unfold AmongNewest at h ⊢
  simpa only [fun n => newerThan_congr (a := n) rfl hrs.symm] using h

theorem Prepared.age {m' : Message} (h : Prepared plan m m') : m'.age = m.age := by
  obtain ⟨_, _, _, _, _, rfl⟩ := h
  rfl

theorem age_flagRow (plan : MailboxSyncPlan) (m : Message) : (flagRow plan m).age = m.age := by
  obtain ⟨_, _, h⟩ := flagRow_eq plan m
  rw [h]
  rfl

theorem untouched_congr (h : List.Forall₂ (Prepared plan) messages incoming) (m : Message) :
    untouched plan incoming m = untouched plan messages m := by
  induction h with
  | nil => rfl
  | cons hn _ ih =>
    rw [untouched_cons, untouched_cons, ih]
    obtain ⟨_, _, _, _, _, rfl⟩ := hn
    rfl

theorem untouched_prepared (h : List.Forall₂ (Prepared plan) messages incoming) {m' : Message}
    (hm : Prepared plan m m') : untouched plan incoming m' = untouched plan messages m := by
  induction h with
  | nil => rfl
  | cons hn _ ih =>
    rw [untouched_cons, untouched_cons, ih]
    obtain ⟨_, _, _, _, _, rfl⟩ := hm
    obtain ⟨_, _, _, _, _, rfl⟩ := hn
    rfl

theorem survivors_prepared {R : Message → Message → Prop} (hR : ∀ m m', R m m' → Prepared plan m m')
    (h : List.Forall₂ R messages incoming) :
    List.Forall₂ R (survivors plan messages) (survivors plan incoming) := by
  induction h with
  | nil => exact .nil
  | cons hn htail ih =>
    simp only [survivors, untouched_prepared (htail.imp hR) (hR _ _ hn)]
    split_ifs
    · exact .cons hn ih
    · exact ih

theorem foreign_storeIncoming {n : Message} {db db' : Db} (h : db.storeIncoming plan n = .ok db')
    (hm : m ∈ db.messages) (hforeign : m.accountId ≠ plan.accountId) :
    ∃ m' ∈ db'.messages, m'.id = m.id ∧ m'.accountId = m.accountId := by
  obtain ⟨upserted, hup, hmessages, _⟩ := storeIncoming_ok h
  have hkept : m ∈ (db.deleteMessages (otherCopy plan n)).messages :=
    mem_deleteWhere.mpr ⟨hm, by simp [otherCopy, hforeign]⟩
  rw [hmessages]
  rcases (upsertSyncMessage_ok hup).2 with ⟨_, hrows⟩ | ⟨_, hrows⟩
  · rw [hrows]
    by_cases hid : m.id = n.id
    · exact ⟨m.overwrite n, mem_updateWhere.mpr (Or.inl ⟨m, hkept, by simpa using hid, rfl⟩),
        hid.symm, rfl⟩
    · exact ⟨m, mem_updateWhere.mpr (Or.inr ⟨hkept, by simpa using hid⟩), rfl, rfl⟩
  · rw [hrows]
    exact ⟨m, List.mem_append_left _ hkept, rfl, rfl⟩

theorem foreign_storeAll {db db' : Db} (h : db.storeAll plan incoming = .ok db')
    (hm : m ∈ db.messages) (hforeign : m.accountId ≠ plan.accountId) :
    ∃ m' ∈ db'.messages, m'.id = m.id ∧ m'.accountId = m.accountId := by
  induction incoming generalizing db m with
  | nil =>
    cases h
    exact ⟨m, hm, rfl, rfl⟩
  | cons n ns ih =>
    obtain ⟨db₁, hone, h⟩ := storeAll_cons h
    obtain ⟨m₁, hm₁, hid, haccount⟩ := foreign_storeIncoming hone hm hforeign
    obtain ⟨m', hm', hid', haccount'⟩ := ih h hm₁ (haccount ▸ hforeign)
    exact ⟨m', hm', hid'.trans hid, haccount'.trans haccount⟩

variable {db prepared stored : Db} {s : Message}

theorem own_of_stored (hids : UniqueBy (fun m => some m.id) db.messages)
    (hmessages : prepared.messages = db.messages)
    (hstore : (prepared.removeStale plan).storeAll plan incoming = .ok stored)
    (hs : s ∈ stored.messages) (haccount : s.accountId = plan.accountId) :
    ∀ row ∈ db.messages, row.id = s.id → row.accountId = plan.accountId := by
  intro row hrow hid
  by_contra hforeign
  have hkept : row ∈ (prepared.removeStale plan).messages := by
    apply mem_removeStale.mpr
    constructor
    · rw [hmessages]
      exact hrow
    · simp [stale, hforeign]
  obtain ⟨row', hrow', hid', haccount'⟩ := foreign_storeAll hstore hkept hforeign
  have hunique := storeAll_ids ((hmessages.symm ▸ hids).sublist (removeStale_sublist prepared plan))
    hstore
  have hsame : row' = s := hunique.eq_of_mem hrow' hs rfl (by rw [hid', hid])
  exact hforeign (by rw [← haccount', hsame, haccount])

theorem nodup_survivors (incoming : List Message) :
    ((survivors plan incoming).map (·.id)).Nodup := by
  induction incoming with
  | nil => exact List.nodup_nil
  | cons n ns ih =>
    rw [survivors]
    split_ifs with hlast
    · refine List.nodup_cons.mpr ⟨fun hmem => ?_, ih⟩
      obtain ⟨k, hk, hid⟩ := List.mem_map.mp hmem
      exact id_ne_of_untouched hlast (mem_of_mem_survivors hk) hid
    · exact ih

theorem nodup_plannedRows (hids : UniqueBy (fun m => some m.id) messages) :
    ((plannedRows messages plan).map (·.id)).Nodup := by
  rw [plannedRows, List.map_append]
  refine List.Nodup.append ((nodup_survivors plan.incoming).sublist (List.filter_sublist.map _))
    (hids.nodup_map.sublist (List.filter_sublist.map _)) ?_
  rintro x hx hx'
  obtain ⟨n, hn, rfl⟩ := List.mem_map.mp hx
  obtain ⟨m, hm, hid⟩ := List.mem_map.mp hx'
  have hkept := (List.mem_filter.mp hm).2
  simp only [Bool.and_eq_true] at hkept
  exact id_ne_of_untouched hkept.2 (mem_of_mem_survivors (List.mem_filter.mp hn).1) hid.symm

section

variable (hids : UniqueBy (fun m => some m.id) db.messages)
  (hforall : List.Forall₂ (Prepared plan) plan.incoming incoming)
  (hmessages : prepared.messages = db.messages)
  (hstore : (prepared.removeStale plan).storeAll plan incoming = .ok stored)
include hids hforall hmessages hstore

theorem exists_planned_of_stored (hs : s ∈ stored.messages) (haccount : s.accountId = plan.accountId) :
    ∃ p ∈ plannedRows db.messages plan, p.age = s.age := by
  have hown := own_of_stored hids hmessages hstore hs haccount
  have hstale : ∀ row ∈ (prepared.removeStale plan).messages, row ∈ db.messages ∧
      stale plan row = false := fun row hrow => by
    rw [← hmessages]
    exact mem_removeStale.mp hrow
  have hrow := (mem_storeAll_of_id (x := s.id) (fun n hn _ => ?_) hstore rfl).mp hs
  · rcases hrow with hlast | ⟨hrow, hrest⟩
    · obtain ⟨p, hpair⟩ := exists_mem_zip_right (survivors_prepared (fun _ _ hm => hm) hforall) hlast
      have hprepared := (List.forall₂_iff_zip.mp
        (survivors_prepared (fun _ _ hm => hm) hforall)).2 hpair
      refine ⟨p, List.mem_append_left _ (List.mem_filter.mpr ⟨(List.of_mem_zip hpair).1, ?_⟩),
        hprepared.age.symm⟩
      simp only [List.all_eq_true, Bool.or_eq_true, decide_eq_true_eq, beq_iff_eq]
      exact fun row hrow => or_iff_not_imp_left.mpr fun hid =>
        hown row hrow ((not_not.mp hid).trans hprepared.cols.1.symm)
    · obtain ⟨hmem, hfresh⟩ := hstale s hrow
      rw [untouched_congr hforall] at hrest
      exact ⟨s, List.mem_append_right _ (List.mem_filter.mpr ⟨hmem, by
        simp [haccount, hfresh, hrest]⟩), rfl⟩
  · obtain ⟨p, hpair⟩ := exists_mem_zip_right hforall hn
    exact ⟨((List.forall₂_iff_zip.mp hforall).2 hpair).cols.2.1,
      fun row hrow hid => hown row (hstale row hrow).1 hid⟩

omit hids in
theorem exists_stored_of_planned {p : Message} (hp : p ∈ plannedRows db.messages plan) :
    ∃ s ∈ stored.messages, s.accountId = plan.accountId ∧ s.age = p.age := by
  rcases List.mem_append.mp hp with hp | hp
  · obtain ⟨hlast, hfree⟩ := List.mem_filter.mp hp
    simp only [List.all_eq_true, Bool.or_eq_true, decide_eq_true_eq, beq_iff_eq] at hfree
    obtain ⟨s, hpair⟩ := exists_mem_zip_left (survivors_prepared (fun _ _ hm => hm) hforall) hlast
    have hprepared := (List.forall₂_iff_zip.mp
      (survivors_prepared (fun _ _ hm => hm) hforall)).2 hpair
    obtain ⟨hid, haccount, -⟩ := hprepared.cols
    refine ⟨s, ?_, haccount, hprepared.age⟩
    refine (mem_storeAll_of_id (x := p.id) (fun n hn _ => ?_) hstore hid).mpr
      (.inl (List.of_mem_zip hpair).2)
    obtain ⟨q, hq⟩ := exists_mem_zip_right hforall hn
    refine ⟨((List.forall₂_iff_zip.mp hforall).2 hq).cols.2.1, fun row hrow hrid => ?_⟩
    have hmem := (mem_removeStale.mp hrow).1
    rw [hmessages] at hmem
    exact (hfree row hmem).resolve_left (not_not.mpr hrid)
  · obtain ⟨hmem, hkept⟩ := List.mem_filter.mp hp
    simp only [Bool.and_eq_true, beq_iff_eq, Bool.not_eq_true'] at hkept
    obtain ⟨⟨haccount, hfresh⟩, hrest⟩ := hkept
    refine ⟨p, mem_storeAll_of_untouched hstore ?_ ?_, haccount, rfl⟩
    · exact mem_removeStale.mpr ⟨hmessages ▸ hmem, hfresh⟩
    · rw [untouched_congr hforall]
      exact hrest

theorem outdated_eq_false_iff {r : Message} (hr : r.accountId = plan.accountId) :
    outdated (stored.messages.map (flagRow plan)) plan.accountId r = false ↔
      AmongNewest db.messages plan r := by
  have hunique := storeAll_ids ((hmessages.symm ▸ hids).sublist (removeStale_sublist prepared plan))
    hstore
  let own := (stored.messages.map (flagRow plan)).filter fun n => n.accountId == plan.accountId
  have hflags : ((stored.messages.map (flagRow plan)).map (·.id)).Nodup := by
    rw [List.map_map]
    exact (List.map_congr_left fun m _ => flagRow_id plan m) ▸ hunique.nodup_map
  have hperm : (own.map Message.age).Perm ((plannedRows db.messages plan).map Message.age) := by
    refine (List.perm_ext_iff_of_nodup ?_ ?_).mpr fun x => ?_
    · exact List.Nodup.of_map Prod.snd (by
        rw [List.map_map]
        exact hflags.sublist (List.filter_sublist.map _))
    · exact List.Nodup.of_map Prod.snd (by
        rw [List.map_map]
        exact nodup_plannedRows hids)
    · simp only [List.mem_map]
      constructor
      · rintro ⟨_, hm, rfl⟩
        obtain ⟨hm, haccount⟩ := List.mem_filter.mp hm
        obtain ⟨s, hs, rfl⟩ := List.mem_map.mp hm
        rw [flagRow_accountId, beq_iff_eq] at haccount
        obtain ⟨p, hp, hage⟩ := exists_planned_of_stored hids hforall hmessages hstore hs haccount
        exact ⟨p, hp, hage.trans (age_flagRow plan s).symm⟩
      · rintro ⟨p, hp, rfl⟩
        obtain ⟨s, hs, haccount, hage⟩ := exists_stored_of_planned hforall hmessages hstore hp
        exact ⟨flagRow plan s, List.mem_filter.mpr ⟨List.mem_map_of_mem hs, by simp [haccount]⟩,
          (age_flagRow plan s).trans hage⟩
  let newer := fun age : String × String => newerThan { r with date := age.1, id := age.2 } r
  have hnewer : ∀ n : Message, newerThan n r = newer n.age := fun n => newerThan_congr rfl rfl
  have hcount := hperm.countP_eq newer
  rw [List.countP_map, List.countP_map] at hcount
  have hlength : ((stored.messages.map (flagRow plan)).filter fun n =>
      n.accountId == plan.accountId && newerThan n r).length =
      ((plannedRows db.messages plan).filter fun n => newerThan n r).length := by
    rw [← List.countP_eq_length_filter, ← List.countP_eq_length_filter]
    rw [List.countP_congr fun n _ => by rw [Bool.and_comm], ← List.countP_filter]
    simpa only [Function.comp_def, ← hnewer] using hcount
  rw [outdated, hlength, AmongNewest]
  simp [hr]

end

end IMail
