import IMail.Files.Directory

/-!
# The attachment cache

`imail-http/src/attachment_cache.rs`. An attachment is two files under the digest of its key, the
content and its metadata; each is written to a temporary path and renamed. A write first drops what
has expired and then the oldest contents of its owner, until the new one fits.

What a read returns comes from one write: the metadata is one file of one write, and the digest in
it binds the content. A write accepts metadata that no read accepts, when it has more than 16 KiB.
-/

namespace IMail.AttachmentCache

open Files

def cacheTtl : ℤ := 30 * 24 * 60 * 60 * 1000

def maxUserCacheBytes : ℕ := 512 * 1024 * 1024

def maxMetadataBytes : ℕ := 16 * 1024

def maxRfc822Bytes : ℕ := 50 * 1024 * 1024

structure Key where
  owner : String
  entry : String
deriving DecidableEq

structure DownloadedAttachment where
  content : List UInt8
  filename : String
  contentType : String
deriving DecidableEq

structure CacheMetadata where
  schemaVersion : ℕ
  filename : String
  contentType : String
  size : ℕ
  sha256 : String
deriving DecidableEq

/-- What the cache takes from `sha2` and `serde_json`, with `Doc` for the bytes of a JSON text. -/
class Codec where
  digest : List UInt8 → String
  digest_injective : Function.Injective digest
  Doc : Type
  length : Doc → ℕ
  toVec : CacheMetadata → Doc
  fromSlice : Doc → Option CacheMetadata
  fromSlice_toVec : ∀ m, fromSlice (toVec m) = some m

inductive Extension
  | bin
  | json
deriving DecidableEq

/-- A path below the directory of an owner; a temporary name has the suffix of its write. -/
structure Path where
  owner : String
  entry : String
  suffix : Option String
  extension : Extension
deriving DecidableEq

def Key.path (k : Key) (suffix : Option String) (extension : Extension) : Path :=
  ⟨k.owner, k.entry, suffix, extension⟩

section

variable [Codec]

inductive Data
  | content (bytes : List UInt8)
  | metadata (doc : Codec.Doc)

def Data.length : Data → ℕ
  | .content bytes => bytes.length
  | .metadata doc => Codec.length doc

abbrev Disk := List (File Path Data)

def expired (f : File Path Data) (now : ℤ) : Bool := cacheTtl < now - f.modified

def readValid (d : Disk) (k : Key) (now : ℤ) : Option DownloadedAttachment :=
  match lookup (k.path none .json) d, lookup (k.path none .bin) d with
  | some ⟨p, .metadata doc, m⟩, some ⟨q, .content bytes, n⟩ =>
    if maxMetadataBytes < Codec.length doc || expired ⟨p, .metadata doc, m⟩ now ||
        maxRfc822Bytes < bytes.length || expired ⟨q, .content bytes, n⟩ now then none
    else
      (Codec.fromSlice doc).bind fun metadata =>
        if metadata.schemaVersion ≠ 1 ∨ metadata.size ≠ bytes.length then none
        else if Codec.digest bytes ≠ metadata.sha256 then none
        else some ⟨bytes, metadata.filename, metadata.contentType⟩
  | _, _ => none

/-- `read`, which removes a pair that it cannot use. -/
def read (d : Disk) (k : Key) (now : ℤ) : Option DownloadedAttachment × Disk :=
  match readValid d k now with
  | some a => (some a, d)
  | none => (none, remove (k.path none .bin) (remove (k.path none .json) d))

structure WriteCall where
  key : Key
  attachment : DownloadedAttachment
  suffix : String
  now : ℤ

def metadataOf (a : DownloadedAttachment) : CacheMetadata :=
  ⟨1, a.filename, a.contentType, a.content.length, Codec.digest a.content⟩

namespace WriteCall

variable (c : WriteCall)

def temporary (extension : Extension) : Path := c.key.path (some c.suffix) extension

def target (extension : Extension) : Path := c.key.path none extension

def contentFile (path : Path) : File Path Data := ⟨path, .content c.attachment.content, c.now⟩

def metadataFile (path : Path) : File Path Data :=
  ⟨path, .metadata (Codec.toVec (metadataOf c.attachment)), c.now⟩

def ops : List (Op Path Data) :=
  [.write (c.contentFile (c.temporary .bin)), .write (c.metadataFile (c.temporary .json)),
    .rename (c.temporary .bin) (c.target .bin), .rename (c.temporary .json) (c.target .json)]

end WriteCall

def isBinOf (owner : String) (f : File Path Data) : Bool :=
  f.path.owner = owner && f.path.extension = .bin

/-- `remove_pair` of the path of a content. -/
def removePair (d : Disk) (f : File Path Data) : Disk :=
  remove { f.path with extension := .json } (remove f.path d)

def evict (incoming : ℕ) : ℕ → List (File Path Data) → Disk → Disk
  | _, [], d => d
  | total, f :: entries, d =>
    if total + incoming ≤ maxUserCacheBytes then d
    else evict incoming (total - f.data.length) entries (removePair d f)

def cleanup (d : Disk) (owner : String) (incoming : ℕ) (now : ℤ) : Disk :=
  let entries := d.filter (isBinOf owner)
  let d := (entries.filter fun f => expired f now).foldl removePair d
  -- what has not expired is still there
  let kept := (entries.filter fun f => !expired f now).insertionSort
    fun f g => f.modified ≤ g.modified
  evict incoming (kept.map (·.data.length)).sum kept d

def write (d : Disk) (c : WriteCall) : Except String Disk :=
  if maxRfc822Bytes < c.attachment.content.length then .error "attachment cache item is too large"
  else .ok (exec (cleanup d c.key.owner c.attachment.content.length c.now) c.ops)

def clearUser (d : Disk) (owner : String) : Disk := d.filter fun f => f.path.owner ≠ owner

def Provenance (calls : List WriteCall) (d : Disk) : Prop :=
  ∀ f ∈ d, ∀ doc, f.data = .metadata doc → ∃ c ∈ calls, c.key = ⟨f.path.owner, f.path.entry⟩ ∧
    doc = Codec.toVec (metadataOf c.attachment)

/-- An operation of one of the writes, or a removal by a cleanup, a read or `clear_user`. -/
def OpOf (calls : List WriteCall) (op : Op Path Data) : Prop :=
  (∃ c ∈ calls, op ∈ c.ops) ∨ ∃ p, op = .remove p

variable {calls : List WriteCall} {d : Disk} {now : ℤ} {c : WriteCall}

theorem Provenance.step (h : Provenance calls d) {op : Op Path Data} (hop : OpOf calls op) :
    Provenance calls (step d op) := by
  have hrename : ∀ (c : WriteCall) (e : Extension),
      Provenance calls (rename (c.temporary e) (c.target e) d) := by
    intro c e
    simp only [rename]
    cases hlookup : lookup (c.temporary e) d with
    | none => exact h
    | some g =>
      obtain ⟨hmem, hpath⟩ := mem_of_lookup hlookup
      intro f hf doc hdoc
      rcases mem_put.mp hf with hf | rfl
      · exact h f (mem_remove.mp (mem_remove.mp hf).1).1 doc hdoc
      · obtain ⟨c', hc', hkey, hdata⟩ := h g hmem doc hdoc
        rw [hpath] at hkey
        exact ⟨c', hc', hkey, hdata⟩
  rcases hop with ⟨c, hc, hop⟩ | ⟨p, rfl⟩
  · simp only [WriteCall.ops, List.mem_cons, List.not_mem_nil, or_false] at hop
    rcases hop with rfl | rfl | rfl | rfl
    · intro f hf doc hdoc
      rcases mem_put.mp hf with hf | rfl
      · exact h f (mem_remove.mp hf).1 doc hdoc
      · cases hdoc
    · intro f hf doc hdoc
      rcases mem_put.mp hf with hf | rfl
      · exact h f (mem_remove.mp hf).1 doc hdoc
      · cases hdoc
        exact ⟨c, hc, rfl, rfl⟩
    · exact hrename c .bin
    · exact hrename c .json
  · intro f hf
    exact h f (mem_remove.mp hf).1

theorem Provenance.exec {ops : List (Op Path Data)} (h : Provenance calls d)
    (hops : ∀ op ∈ ops, OpOf calls op) : Provenance calls (exec d ops) := by
  induction ops generalizing d with
  | nil => exact h
  | cons op ops ih =>
    exact ih (h.step (hops op List.mem_cons_self)) fun op' hop' =>
      hops op' (List.mem_cons_of_mem _ hop')

theorem Provenance.readValid (h : Provenance calls d) {k : Key} {a : DownloadedAttachment}
    (hread : readValid d k now = some a) : ∃ c ∈ calls, c.key = k ∧ c.attachment = a := by
  unfold AttachmentCache.readValid at hread
  split at hread
  · rename_i p doc m q bytes n hmeta hcontent
    obtain ⟨hmem, hpath⟩ := mem_of_lookup hmeta
    obtain ⟨c, hc, hkey, rfl⟩ := h _ hmem doc rfl
    split_ifs at hread
    simp only [Codec.fromSlice_toVec, Option.bind_some, metadataOf] at hread
    split_ifs at hread with _ hdigest
    have hbytes : bytes = c.attachment.content := Codec.digest_injective (not_not.mp hdigest)
    refine ⟨c, hc, ?_, ?_⟩
    · rw [hkey, hpath]
      rfl
    · rw [← Option.some.inj hread, hbytes]
  · cases hread

def bins (owner : String) (d : Disk) : List (File Path Data) := d.filter (isBinOf owner)

def binBytes (owner : String) (d : Disk) : ℕ := ((bins owner d).map (·.data.length)).sum

theorem bins_remove (owner : String) (p : Path) (d : Disk) :
    bins owner (remove p d) = remove p (bins owner d) := by
  simp only [bins, remove, List.filter_filter, Bool.and_comm]

theorem remove_bins_json {owner : String} {p : Path} (hp : p.extension = .json) (d : Disk) :
    remove p (bins owner d) = bins owner d := by
  refine List.filter_eq_self.mpr fun f hf => ?_
  have hbin := (List.mem_filter.mp hf).2
  simp only [isBinOf, Bool.and_eq_true, decide_eq_true_eq] at hbin
  simp only [ne_eq, decide_not, Bool.not_eq_true', decide_eq_false_iff_not]
  rintro rfl
  rw [hp] at hbin
  exact absurd hbin.2 (by decide)

theorem bins_removePair (owner : String) (d : Disk) (f : File Path Data) :
    bins owner (removePair d f) = remove f.path (bins owner d) := by
  rw [removePair, bins_remove, ← bins_remove owner f.path, remove_bins_json rfl]

theorem bins_foldl_removePair (owner : String) (fs : List (File Path Data)) (d : Disk) :
    bins owner (fs.foldl removePair d) =
      (bins owner d).filter fun f => !(fs.map (·.path)).contains f.path := by
  induction fs generalizing d with
  | nil => simp
  | cons g fs ih =>
    rw [List.foldl_cons, ih, bins_removePair, remove, List.filter_filter]
    refine List.filter_congr fun f _ => ?_
    by_cases hpath : f.path = g.path <;> simp [hpath]

theorem evict_fits (owner : String) {incoming : ℕ} (hfits : incoming ≤ maxUserCacheBytes)
    (entries : List (File Path Data)) : ∀ d : Disk, (bins owner d).Perm entries →
      (entries.map (·.path)).Nodup →
      binBytes owner (evict incoming (entries.map (·.data.length)).sum entries d) + incoming ≤
        maxUserCacheBytes := by
  induction entries with
  | nil =>
    intro d hperm _
    simpa [evict, binBytes, List.perm_nil.mp hperm] using hfits
  | cons f entries ih =>
    intro d hperm hnodup
    rw [evict]
    split_ifs with hdone
    · rw [binBytes, (hperm.map _).sum_eq]
      exact hdone
    · rw [List.map_cons, List.nodup_cons] at hnodup
      have hrest : remove f.path (f :: entries) = entries := by
        rw [remove, List.filter_cons_of_neg (by simp)]
        refine List.filter_eq_self.mpr fun g hg => ?_
        simpa using fun heq : g.path = f.path => hnodup.1 (heq ▸ List.mem_map_of_mem hg)
      have hleft : (bins owner (removePair d f)).Perm entries := by
        rw [bins_removePair]
        exact hrest ▸ hperm.filter _
      simpa using ih (removePair d f) hleft hnodup.2

theorem cleanup_fits (hd : Distinct d) (owner : String) {incoming : ℕ}
    (hfits : incoming ≤ maxUserCacheBytes) (now : ℤ) :
    binBytes owner (cleanup d owner incoming now) + incoming ≤ maxUserCacheBytes := by
  have hinj : ∀ f ∈ d, ∀ g ∈ d, f.path = g.path → f = g := fun f hf g hg h =>
    List.inj_on_of_nodup_map hd hf hg h
  have hkept : bins owner (((d.filter (isBinOf owner)).filter fun f => expired f now).foldl
      removePair d) = (d.filter (isBinOf owner)).filter fun f => !expired f now := by
    rw [bins_foldl_removePair, bins]
    refine List.filter_congr fun f hf => ?_
    have hmem := List.mem_of_mem_filter hf
    cases hexpired : expired f now with
    | true => simpa using ⟨f, ⟨hmem, hexpired, (List.mem_filter.mp hf).2⟩, rfl⟩
    | false =>
      simp only [List.contains_eq_mem, List.mem_map, List.mem_filter, Bool.not_false,
        Bool.not_eq_true', decide_eq_false_iff_not]
      rintro ⟨g, ⟨⟨hg, _⟩, hgone⟩, hpath⟩
      rw [hinj g hg f hmem hpath, hexpired] at hgone
      cases hgone
  have hperm := List.perm_insertionSort (fun f g : File Path Data => f.modified ≤ g.modified)
    ((d.filter (isBinOf owner)).filter fun f => !expired f now)
  refine evict_fits owner hfits _ _ (hkept ▸ hperm.symm) ?_
  refine ((hperm.map (·.path)).nodup_iff).mpr ?_
  exact List.Nodup.sublist ((List.filter_sublist.trans List.filter_sublist).map _) hd

theorem exec_ops (c : WriteCall) (d : Disk) :
    exec d c.ops = put (c.metadataFile (c.target .json)) (remove (c.temporary .json)
      (put (c.contentFile (c.target .bin)) (remove (c.temporary .bin)
        (put (c.metadataFile (c.temporary .json)) (put (c.contentFile (c.temporary .bin)) d))))) := by
  have hcontent : lookup (c.temporary .bin) (put (c.metadataFile (c.temporary .json))
      (put (c.contentFile (c.temporary .bin)) d)) = some (c.contentFile (c.temporary .bin)) := by
    rw [lookup_put_of_ne (by simp [WriteCall.metadataFile, WriteCall.temporary, Key.path])]
    exact lookup_put_self (by rfl) _
  have hmetadata : lookup (c.temporary .json) (put (c.contentFile (c.target .bin))
      (remove (c.temporary .bin) (put (c.metadataFile (c.temporary .json))
        (put (c.contentFile (c.temporary .bin)) d)))) =
        some (c.metadataFile (c.temporary .json)) := by
    rw [lookup_put_of_ne
        (by simp [WriteCall.contentFile, WriteCall.temporary, WriteCall.target, Key.path]),
      lookup_remove_of_ne (by simp [WriteCall.temporary, Key.path])]
    exact lookup_put_self (by rfl) _
  simp only [exec, WriteCall.ops, List.foldl_cons, List.foldl_nil, step, rename, hcontent]
  simp only [WriteCall.contentFile] at hmetadata ⊢
  rw [hmetadata]
  rfl

def Holds (c : WriteCall) (d : Disk) : Prop :=
  lookup (c.target .json) d = some (c.metadataFile (c.target .json)) ∧
    lookup (c.target .bin) d = some (c.contentFile (c.target .bin))

theorem holds_exec_ops (c : WriteCall) (d : Disk) : Holds c (exec d c.ops) := by
  rw [exec_ops]
  refine ⟨lookup_put_self (by rfl) _, ?_⟩
  rw [lookup_put_of_ne (by simp [WriteCall.metadataFile, WriteCall.target, Key.path]),
    lookup_remove_of_ne (by simp [WriteCall.temporary, WriteCall.target, Key.path])]
  exact lookup_put_self (by rfl) _

theorem binBytes_exec_ops (c : WriteCall) (d : Disk) :
    binBytes c.key.owner (exec d c.ops) ≤
      binBytes c.key.owner d + c.attachment.content.length := by
  have hput : ∀ (f : File Path Data) (d : Disk), bins c.key.owner (put f d) =
      remove f.path (bins c.key.owner d) ++ if isBinOf c.key.owner f then [f] else [] := by
    intro f d
    rw [put, bins, List.filter_append, ← bins, bins_remove]
    cases hbin : isBinOf c.key.owner f <;> simp [hbin]
  have hsub : (bins c.key.owner (exec d c.ops)).Sublist
      (bins c.key.owner d ++ [c.contentFile (c.target .bin)]) := by
    have hjson : ∀ suffix, isBinOf c.key.owner (c.metadataFile (c.key.path suffix .json)) = false :=
      fun suffix => by simp [isBinOf, WriteCall.metadataFile, Key.path]
    have hbin : ∀ suffix, isBinOf c.key.owner (c.contentFile (c.key.path suffix .bin)) = true :=
      fun suffix => by simp [isBinOf, WriteCall.contentFile, Key.path]
    have hgone : ∀ (q : Path) (fs : List (File Path Data)),
        remove (c.key.path (some c.suffix) .bin) (remove q
          (fs ++ [c.contentFile (c.key.path (some c.suffix) .bin)])) =
            remove (c.key.path (some c.suffix) .bin) (remove q fs) := by
      intro q fs
      by_cases hq : c.key.path (some c.suffix) .bin = q <;>
        simp [remove, WriteCall.contentFile, hq]
    simp only [exec_ops, hput, bins_remove, WriteCall.temporary, WriteCall.target, hjson, hbin,
      Bool.false_eq_true, if_true, if_false, List.append_nil, hgone]
    have hremove : ∀ (p : Path) (fs : List (File Path Data)), (remove p fs).Sublist fs :=
      fun p fs => List.filter_sublist
    refine (hremove _ _).trans ((hremove _ _).trans (List.Sublist.append ?_ (List.Sublist.refl _)))
    exact (hremove _ _).trans ((hremove _ _).trans ((hremove _ _).trans (hremove _ _)))
  calc binBytes c.key.owner (exec d c.ops)
      ≤ ((bins c.key.owner d ++ [c.contentFile (c.target .bin)]).map (·.data.length)).sum :=
        (hsub.map _).sum_le_sum fun _ _ => Nat.zero_le _
    _ = binBytes c.key.owner d + c.attachment.content.length := by
        simp [binBytes, WriteCall.contentFile, Data.length]

def Leads (calls : List WriteCall) (d d' : Disk) : Prop :=
  ∃ ops, d' = exec d ops ∧ ∀ op ∈ ops, OpOf calls op

namespace Leads

theorem refl (d : Disk) : Leads calls d d := ⟨[], rfl, by simp⟩

theorem trans {d₁ d₂ d₃ : Disk} (h : Leads calls d₁ d₂) (h' : Leads calls d₂ d₃) :
    Leads calls d₁ d₃ := by
  obtain ⟨ops, rfl, hops⟩ := h
  obtain ⟨ops', rfl, hops'⟩ := h'
  refine ⟨ops ++ ops', by rw [exec, exec, exec, List.foldl_append], fun op hop => ?_⟩
  exact (List.mem_append.mp hop).elim (hops op) (hops' op)

theorem remove (p : Path) (d : Disk) : Leads calls d (remove p d) :=
  ⟨[.remove p], rfl, fun _ hop => .inr ⟨p, List.mem_singleton.mp hop⟩⟩

theorem removePair (d : Disk) (f : File Path Data) : Leads calls d (removePair d f) :=
  (remove ..).trans (remove ..)

theorem foldl {α : Type} {f : Disk → α → Disk} {as : List α}
    (h : ∀ d, ∀ a ∈ as, Leads calls d (f d a)) (d : Disk) : Leads calls d (as.foldl f d) := by
  induction as generalizing d with
  | nil => exact refl d
  | cons a as ih =>
    exact (h d a List.mem_cons_self).trans (ih (fun d b hb => h d b (List.mem_cons_of_mem a hb)) _)

theorem evict (incoming : ℕ) (entries : List (File Path Data)) (total : ℕ) (d : Disk) :
    Leads calls d (evict incoming total entries d) := by
  induction entries generalizing total d with
  | nil => exact refl d
  | cons f entries ih =>
    rw [AttachmentCache.evict]
    split_ifs
    · exact refl d
    · exact (removePair d f).trans (ih _ _)

theorem cleanup (d : Disk) (owner : String) (incoming : ℕ) (now : ℤ) :
    Leads calls d (cleanup d owner incoming now) :=
  (foldl (fun d f _ => removePair d f) d).trans (evict ..)

theorem clearUser (d : Disk) (owner : String) : Leads calls d (clearUser d owner) := by
  have hfold : ∀ (ps : List Path) (d : Disk),
      ps.foldl (fun d p => Files.remove p d) d = d.filter fun f => f.path ∉ ps := by
    intro ps
    induction ps with
    | nil => simp
    | cons p ps ih =>
      intro d
      rw [List.foldl_cons, ih, Files.remove, List.filter_filter]
      exact List.filter_congr fun f _ => by simp [Bool.and_comm]
  have hclear : AttachmentCache.clearUser d owner =
      ((d.map (·.path)).filter (·.owner = owner)).foldl (fun d p => Files.remove p d) d := by
    rw [hfold]
    refine List.filter_congr fun f hf => ?_
    have hmem : f.path ∈ d.map (·.path) := List.mem_map_of_mem hf
    simp [List.mem_filter, hmem, -List.mem_map]
  rw [hclear]
  exact foldl (fun d p _ => remove p d) d

end Leads

inductive Call
  | write (c : WriteCall)
  | read (k : Key) (now : ℤ)
  | clearUser (owner : String)

def Call.apply (d : Disk) : Call → Disk
  | .write c => (AttachmentCache.write d c).toOption.getD d
  | .read k now => (AttachmentCache.read d k now).2
  | .clearUser owner => AttachmentCache.clearUser d owner

def Call.written : Call → Option WriteCall
  | .write c => some c
  | _ => none

/-- A run of calls is a run of the file operations of its writes and of removals. -/
theorem calls_lead (run : List Call) (d : Disk) :
    Leads (run.filterMap Call.written) d (run.foldl Call.apply d) := by
  refine Leads.foldl (fun d call hcall => ?_) d
  cases call with
  | write c =>
    simp only [Call.apply, AttachmentCache.write]
    split_ifs
    · exact .refl d
    · have hc : c ∈ run.filterMap Call.written := List.mem_filterMap.mpr ⟨_, hcall, rfl⟩
      exact (Leads.cleanup ..).trans ⟨c.ops, rfl, fun op hop => .inl ⟨c, hc, hop⟩⟩
  | read k now =>
    simp only [Call.apply, AttachmentCache.read]
    split
    · exact .refl d
    · exact (Leads.remove ..).trans (.remove ..)
  | clearUser owner => exact .clearUser d owner

theorem readValid_of_holds (h : Holds c d) (hlive : now - c.now ≤ cacheTtl)
    (hsize : c.attachment.content.length ≤ maxRfc822Bytes) :
    readValid d c.key now =
      if maxMetadataBytes < Codec.length (Codec.toVec (metadataOf c.attachment)) then none
      else some c.attachment := by
  have hmetadata := h.1
  have hcontent := h.2
  simp only [WriteCall.target, WriteCall.metadataFile, WriteCall.contentFile] at hmetadata hcontent
  have hexpired : (decide (cacheTtl < now - c.now)) = false := by simpa using hlive
  have hlarge : ¬ maxRfc822Bytes < c.attachment.content.length := by omega
  simp only [readValid, hmetadata, hcontent, expired, hexpired, Bool.or_false, Codec.fromSlice_toVec]
  split_ifs with hboth hlong hlong
  · rfl
  · simp [hlong, hlarge] at hboth
  · simp [hlong] at hboth
  · simp [metadataOf]

def readAll (d : Disk) (reads : List (Key × ℤ)) : Disk :=
  reads.foldl (fun d r => (read d r.1 r.2).2) d

theorem Holds.read (h : Holds c d) (hsize : c.attachment.content.length ≤ maxRfc822Bytes)
    (hshort : Codec.length (Codec.toVec (metadataOf c.attachment)) ≤ maxMetadataBytes) (k : Key)
    (hlive : now - c.now ≤ cacheTtl) : Holds c (read d k now).2 := by
  by_cases hk : k = c.key
  · have hvalid := readValid_of_holds h hlive hsize
    rw [if_neg (by omega)] at hvalid
    rw [AttachmentCache.read, hk, hvalid]
    exact h
  · -- another key has other paths
    have hpath : ∀ e e', k.path none e ≠ c.target e' := by
      intro e e' heq
      simp only [WriteCall.target, Key.path, Path.mk.injEq] at heq
      exact hk (by cases k; simp_all)
    unfold AttachmentCache.read
    cases readValid d k now with
    | some a => exact h
    | none =>
      simp only [Holds, lookup_remove_of_ne (hpath _ _)]
      exact h

/-- Every read after the write of an attachment, as long as it lives and with no other write, returns
it. -/
def Effective (c : WriteCall) (d : Disk) : Prop :=
  ∀ reads : List (Key × ℤ), (∀ r ∈ reads, r.2 - c.now ≤ cacheTtl) → ∀ now, now - c.now ≤ cacheTtl →
    (read (readAll d reads) c.key now).1 = some c.attachment

theorem Holds.readAll (hsize : c.attachment.content.length ≤ maxRfc822Bytes)
    (hshort : Codec.length (Codec.toVec (metadataOf c.attachment)) ≤ maxMetadataBytes)
    (reads : List (Key × ℤ)) : ∀ {d : Disk}, Holds c d → (∀ r ∈ reads, r.2 - c.now ≤ cacheTtl) →
      Holds c (readAll d reads) := by
  induction reads with
  | nil => exact fun h _ => h
  | cons r reads ih =>
    intro d h hlive
    exact ih (h.read hsize hshort r.1 (hlive r List.mem_cons_self)) fun r' hr' =>
      hlive r' (List.mem_cons_of_mem _ hr')

theorem effective_iff (h : Holds c d) (hsize : c.attachment.content.length ≤ maxRfc822Bytes) :
    Effective c d ↔ Codec.length (Codec.toVec (metadataOf c.attachment)) ≤ maxMetadataBytes := by
  constructor
  · intro heffective
    by_contra hlong
    have hread := heffective [] (by simp) c.now (by simp [cacheTtl])
    have hvalid := @readValid_of_holds _ d c.now c h (by simp [cacheTtl]) hsize
    rw [if_pos (by omega)] at hvalid
    simp only [AttachmentCache.readAll, List.foldl_nil, AttachmentCache.read, hvalid] at hread
    cases hread
  · intro hshort reads hreads now hlive
    have hvalid := readValid_of_holds (h.readAll hsize hshort reads hreads) hlive hsize
    rw [if_neg (by omega)] at hvalid
    simp only [AttachmentCache.read, hvalid]

/-- After any interleaving of the file operations of writes with removals, each broken off or not, a
read returns what some write stored under its key. An uninterrupted write then leaves at most 512 MiB
of contents to its owner, and reads find what it stored exactly if the metadata has at most 16 KiB. -/
theorem attachment_cache_iff (calls : List WriteCall) (ops : List (Op Path Data))
    (hops : ∀ op ∈ ops, OpOf calls op) :
    let d := exec [] ops
    (∀ k now a, (read d k now).1 = some a → ∃ c ∈ calls, c.key = k ∧ c.attachment = a) ∧
      ∀ c d', write d c = .ok d' → binBytes c.key.owner d' ≤ maxUserCacheBytes ∧
        (Effective c d' ↔
          Codec.length (Codec.toVec (metadataOf c.attachment)) ≤ maxMetadataBytes) := by
  intro d
  have hprovenance : Provenance calls d := Provenance.exec (by simp [Provenance]) hops
  have hdistinct : Distinct d := Distinct.exec (by simp [Distinct]) ops
  refine ⟨fun k now a hread => ?_, fun c d' hwrite => ?_⟩
  · unfold AttachmentCache.read at hread
    cases hvalid : readValid d k now with
    | none => simp [hvalid] at hread
    | some b =>
      simp only [hvalid, Option.some.injEq] at hread
      exact hprovenance.readValid (hread ▸ hvalid)
  · unfold write at hwrite
    split_ifs at hwrite with hlarge
    cases hwrite
    have hsize := not_lt.mp hlarge
    have hfits := cleanup_fits hdistinct c.key.owner
      (hsize.trans (by decide : maxRfc822Bytes ≤ maxUserCacheBytes)) c.now
    exact ⟨(binBytes_exec_ops c _).trans hfits, effective_iff (holds_exec_ops c _) hsize⟩

end

/-- A codec to evaluate closed terms with: a content is its own digest, and the metadata has the
length of the file name. -/
@[reducible] def Codec.plain : Codec where
  digest bytes := String.ofList (bytes.map Char.ofUInt8)
  digest_injective a b h := by
    have hchar : Function.Injective Char.ofUInt8 := fun x y hxy =>
      UInt8.toNat_inj.mp (congrArg Char.toNat hxy)
    exact List.map_injective_iff.mpr hchar (String.ofList_injective h)
  Doc := CacheMetadata
  length m := m.filename.length
  toVec := id
  fromSlice := some
  fromSlice_toVec _ := rfl

def emptyFile (filename : String) : WriteCall := ⟨⟨"u", "e"⟩, ⟨[], filename, "text/plain"⟩, "1", 0⟩

/-- A write of `report.txt` to the end, then one of another key that breaks off before its metadata is
in place: a read finds the report, and a later write to the second key is read back. -/
theorem attachment_cache_iff_broken_off :
    letI := Codec.plain
    let report : WriteCall := ⟨⟨"u", "r"⟩, ⟨[82, 101], "report.txt", "text/plain"⟩, "1", 0⟩
    let broken : WriteCall := ⟨⟨"u", "p"⟩, ⟨[137, 80], "old.png", "image/png"⟩, "2", 5⟩
    let photo : WriteCall := ⟨⟨"u", "p"⟩, ⟨[137, 80, 78], "new.png", "image/png"⟩, "3", 9⟩
    let d := exec [] (report.ops ++ broken.ops.take 3)
    ((read d report.key 7).1 = some report.attachment ∧
      ∃ c ∈ [report, broken], c.key = report.key ∧ c.attachment = report.attachment) ∧
    ∃ d', write d photo = .ok d' ∧ binBytes "u" d' ≤ maxUserCacheBytes ∧ Effective photo d' := by
  let _ := Codec.plain
  intro report broken photo d
  have hops : ∀ op ∈ report.ops ++ broken.ops.take 3, OpOf [report, broken] op := by
    intro op hop
    rcases List.mem_append.mp hop with hop | hop
    · exact .inl ⟨report, by simp, hop⟩
    · exact .inl ⟨broken, by simp, List.mem_of_mem_take hop⟩
  have hread : (read d report.key 7).1 = some report.attachment := by decide +kernel
  obtain ⟨hsound, hwrite⟩ := attachment_cache_iff [report, broken] _ hops
  obtain ⟨hbytes, heffective⟩ := hwrite photo _ (if_neg (by decide))
  exact ⟨⟨hread, hsound _ _ _ hread⟩, _, if_neg (by decide), hbytes, heffective.mpr (by decide)⟩

/-- An attachment under a name of 17000 letters is written and never read. -/
theorem long_metadata_never_read :
    letI := Codec.plain
    ∃ filename d, write [] (emptyFile filename) = .ok d ∧ (read d ⟨"u", "e"⟩ 0).1 = none := by
  let _ := Codec.plain
  obtain ⟨filename, hlength⟩ : ∃ filename : String, filename.length = 17000 :=
    ⟨String.ofList (List.replicate 17000 'a'), by rw [String.length_ofList, List.length_replicate]⟩
  have hlong : maxMetadataBytes <
      Codec.length (Codec.toVec (metadataOf (emptyFile filename).attachment)) :=
    (by decide : maxMetadataBytes < 17000).trans_eq hlength.symm
  refine ⟨filename, _, if_neg (Nat.not_lt_zero _), ?_⟩
  have hvalid := @readValid_of_holds _ _ 0 (emptyFile filename) (holds_exec_ops (emptyFile filename)
    (cleanup [] "u" 0 0)) (by simp [emptyFile, cacheTtl]) (Nat.zero_le _)
  rw [if_pos hlong] at hvalid
  unfold read
  rw [show readValid (exec (cleanup [] (emptyFile filename).key.owner
    (emptyFile filename).attachment.content.length (emptyFile filename).now)
    (emptyFile filename).ops) ⟨"u", "e"⟩ 0 = none from hvalid]

end IMail.AttachmentCache
