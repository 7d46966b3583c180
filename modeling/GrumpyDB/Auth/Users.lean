/-
The users in memory are those in the directory.

They are as long as no tenant has a slash in its name and no two users get one file name
(`Synced`). The name of a file is the tenant and the user name with two underscores between
them, so the users `c` of `a__b` and `b__c` of `a` share a file.
-/
import GrumpyDB.Auth.Directory

namespace GrumpyDB

namespace Auth

open FileTree List
open Proc hiding bind

/-! ### The file of a user -/

def User.fileName (u : User) : String := userFileName u.tenant u.username

def User.place (dir : Place) (u : User) : Place := usersDir dir ++ [u.fileName]

variable {u : User}

theorem User.place_inj {dir : Place} {v : User} :
    u.place dir = v.place dir ↔ u.fileName = v.fileName := by
  simp [User.place]

theorem slash_not_mem_sanitise (s : String) : '/' ∉ (sanitiseForFilename s).toList := by
  rw [sanitiseForFilename, String.toList_ofList, mem_flatMap]
  rintro ⟨c, -, hc⟩
  split at hc
  · simp at hc
  · rename_i hne
    exact hne (.inl (mem_singleton.mp hc).symm)

variable {tenant : String}

theorem isPlain_userFileName (h : '/' ∉ tenant.toList) (username : String) :
    IsPlain (userFileName tenant username) := by
  refine isPlain_of_suffix ?_ (by decide) (by decide)
  simp only [String.toList_append, mem_append, not_or]
  exact ⟨⟨h, by decide⟩, slash_not_mem_sanitise username⟩

theorem hasJsonExtension_userFileName (tenant username : String) :
    AuthStore.hasJsonExtension (userFileName tenant username) = true := by
  simp only [AuthStore.hasJsonExtension, userFileName, String.toList_append, Bool.and_eq_true,
    decide_eq_true_eq, isSuffixOf_iff_suffix]
  refine ⟨?_, suffix_append _ _⟩
  simp only [length_append]
  have : "__".toList.length = 2 := rfl
  have : ".json".toList.length = 5 := rfl
  omega

variable {username : String}

theorem User.is_iff :
    User.Is tenant username u = true ↔ u.tenant = tenant ∧ u.username = username := by
  simp [User.Is]

theorem User.fileName_of_is (h : User.Is tenant username u = true) :
    u.fileName = userFileName tenant username := by
  obtain ⟨rfl, rfl⟩ := User.is_iff.mp h
  rfl

/-! ### Lists with one place changed -/

theorem exists_split_of_findIdx? {α : Type} {p : α → Bool} {l : List α} {i : Nat}
    (h : l.findIdx? p = some i) :
    ∃ a x b, l = a ++ x :: b ∧ a.length = i ∧ p x = true := by
  obtain ⟨hi, hp, -⟩ := findIdx?_eq_some_iff_getElem.mp h
  refine ⟨l.take i, l[i], l.drop (i + 1), ?_, by simp [hi.le], hp⟩
  rw [← drop_eq_getElem_cons hi, take_append_drop]

namespace AuthStore

/-- The directory of users is as it was. -/
structure UsersKept (dir : Place) (t t' : FileTree) : Prop where
  layout : Layout t' dir
  usersDir : t'.dirs (usersDir dir) = true
  files : ∀ name, t'.files (Auth.usersDir dir ++ [name]) = t.files (Auth.usersDir dir ++ [name])

namespace UsersKept

variable {dir l : Place} {t t' : FileTree}

theorem addDirs (h : UsersKept dir t t') (hl : l <+: keysDir dir) :
    UsersKept dir t (t'.addDirs l) :=
  ⟨h.layout.addDirs (.inr hl), dirs_addDirs.mpr (.inl h.usersDir), h.files⟩

theorem setFile_key (h : UsersKept dir t t') (name : String) (b : Option (List UInt8)) :
    UsersKept dir t (t'.setFile (keysDir dir ++ [name]) b) :=
  ⟨h.layout.setFile (isFile_key dir name), h.usersDir, fun x =>
    (files_setFile_ne (by simp [Auth.usersDir, keysDir])).trans (h.files x)⟩

theorem setFile_jwt (h : UsersKept dir t t') {name : String} (hname : name ≠ "keys")
    (b : Option (List UInt8)) : UsersKept dir t (t'.setFile (jwtDir dir ++ [name]) b) :=
  ⟨h.layout.setFile (isFile_jwt dir hname), h.usersDir, fun x =>
    (files_setFile_ne (by simp [Auth.usersDir, jwtDir])).trans (h.files x)⟩

theorem holds (h : UsersKept dir t t') (hlayout : Layout t dir) (name : String) :
    t'.holds (Auth.usersDir dir ++ [name]) = true ↔
      t.holds (Auth.usersDir dir ++ [name]) = true := by
  have hnew := h.layout.dirs_eq_false (isFile_user dir name)
  have hold := hlayout.dirs_eq_false (isFile_user dir name)
  rw [FileTree.holds, FileTree.holds, h.files, hnew, hold]

theorem lists (h : UsersKept dir t t') (hlayout : Layout t dir) {entries : List String}
    (hlists : t.Lists (Auth.usersDir dir) entries) : t'.Lists (Auth.usersDir dir) entries :=
  ⟨hlists.nodup, fun name => (hlists.mem_iff name).trans (h.holds hlayout name).symm⟩

end UsersKept

/-- Nothing is at the place of the store yet. -/
structure Fresh (t : FileTree) (dir : Place) : Prop where
  files : ∀ names, t.files (dir ++ names) = none
  dirs : ∀ names, names ≠ [] → t.dirs (dir ++ names) = false
  above : ∀ l, l <+: dir → t.files l = none

variable {t : FileTree} {dir : Place}

theorem Fresh.layout (h : Fresh t dir) : Layout t dir := by
  refine ⟨?_, ?_⟩
  · intro l hl
    have hcases : l <+: dir ∨ ∃ names, l = dir ++ names := by
      rcases hl with hl | hl
      · rcases prefix_concat_iff.mp hl with rfl | hl
        · exact .inr ⟨_, rfl⟩
        · exact .inl hl
      · rw [keysDir, show dir ++ ["jwt", "keys"] = (dir ++ ["jwt"]) ++ ["keys"] by simp] at hl
        rcases prefix_concat_iff.mp hl with rfl | hl
        · exact .inr ⟨_, append_assoc ..⟩
        rcases prefix_concat_iff.mp hl with rfl | hl
        · exact .inr ⟨_, rfl⟩
        · exact .inl hl
    rcases hcases with hl | ⟨names, rfl⟩
    · exact h.above l hl
    · exact h.files names
  · intro names hdir
    by_cases hnil : names = []
    · exact .inl (hnil ▸ nil_prefix)
    · rw [h.dirs names hnil] at hdir
      cases hdir

theorem Fresh.entries_eq_nil (h : Fresh t dir) {entries : List String}
    (hlists : t.Lists (Auth.usersDir dir) entries) : entries = [] := by
  refine eq_nil_iff_forall_not_mem.mpr fun name hname => ?_
  have hholds := (hlists.mem_iff name).mp hname
  have hplace : Auth.usersDir dir ++ [name] = dir ++ ["users", name] := by simp [Auth.usersDir]
  rw [hplace, holds, h.files, h.dirs _ (by simp)] at hholds
  cases hholds

section Directories

variable [Rsa] [PrettyJson JwtDiskConfig] [PrettyJson User] {s s' : AuthState}

/-- The directory and the store in memory agree. -/
structure Synced (s : AuthState) : Prop where
  layout : Layout s.disk s.store.authDir
  usersDir : s.disk.dirs (usersDir s.store.authDir) = true
  config : ∃ config, ConfigStored s.disk s.store.authDir config
  tenants : ∀ u ∈ s.store.users, '/' ∉ u.tenant.toList
  names : (s.store.users.map User.fileName).Nodup
  stored : ∀ u ∈ s.store.users,
    s.disk.files (u.place s.store.authDir) = some (utf8 (PrettyJson.toStringPretty u))
  only : ∀ name, s.disk.holds (Auth.usersDir s.store.authDir ++ [name]) = true →
    name ∈ s.store.users.map User.fileName

/-- Opening the store again makes no new users. -/
structure Staffed (store : AuthStore) : Prop where
  admin : store.hasAdmin = true
  peer : (store.getUser SYSTEM_TENANT CLUSTER_PEER_USERNAME).isSome = true

/-! ### What the calls do -/

section Rules

variable {Q : Unit → AuthState → Prop} {E : AuthError → AuthState → Prop}

omit [PrettyJson JwtDiskConfig] [PrettyJson User] in
theorem post_onDisk {α : Type} {x : Disk α} {Q : α → AuthState → Prop} :
    Post (onDisk x) Q E s ↔
      Post x (fun a t => Q a { s with disk := t }) (fun e t => E e { s with disk := t }) s.disk :=
  post_zoom

omit [PrettyJson JwtDiskConfig] in
theorem saveUser_rule {u : User} (hlayout : Layout s.disk s.store.authDir)
    (hdir : s.disk.dirs (Auth.usersDir s.store.authDir) = true) (htenant : '/' ∉ u.tenant.toList)
    (hQ : Q () ⟨s.store, s.disk.setFile (u.place s.store.authDir)
      (some (utf8 (PrettyJson.toStringPretty u)))⟩) : Post (saveUser u) Q E s := by
  refine Post.bind (post_get.mpr (post_onDisk.mpr ?_))
  refine post_step_ok (write_eq_ok_of (locate_plain (isPlain_userFileName htenant u.username))
    (hlayout.dirs_eq_false (isFile_user _ _)) ?_) hQ
  rw [dropLast_concat]
  exact hdir

variable {tenant username : String}

omit [PrettyJson JwtDiskConfig] in
theorem createUser_rule {new : NewUser} {roles : List RoleAssignment}
    (hlayout : Layout s.disk s.store.authDir)
    (hdir : s.disk.dirs (Auth.usersDir s.store.authDir) = true) (htenant : '/' ∉ tenant.toList)
    (hE : ∀ e, (s.store.users.any (User.Is tenant username) = true ∨ new.hash = .error e ∨
      new.now = .error e) → E e s) (hQ : ∀ hash now, new.hash = .ok hash → new.now = .ok now →
      let u : User := ⟨username, tenant, hash, roles, now⟩
      Q () ⟨{ s.store with users := s.store.users ++ [u] },
        s.disk.setFile (u.place s.store.authDir) (some (utf8 (PrettyJson.toStringPretty u)))⟩) :
    Post (createUser tenant username new roles) Q E s := by
  refine Post.bind (post_get.mpr ?_)
  split
  · rename_i hexists
    exact hE _ (.inl hexists)
  · refine Post.bind ?_
    rcases hhash : new.hash with e | hash
    · exact hE e (.inr (.inl hhash))
    refine post_lift_ok.mpr (Post.bind ?_)
    rcases hnow : new.now with e | now
    · exact hE e (.inr (.inr hnow))
    exact post_lift_ok.mpr (Post.bind (saveUser_rule hlayout hdir htenant
      (hQ hash now hhash hnow)))

omit [PrettyJson JwtDiskConfig] [PrettyJson User] in
theorem deleteUser_rule (htenants : ∀ u ∈ s.store.users, '/' ∉ u.tenant.toList)
    (hstored : ∀ u ∈ s.store.users, ∃ bytes,
      s.disk.files (u.place s.store.authDir) = some bytes)
    (hQ : ∀ a u b, s.store.users = a ++ u :: b → User.Is tenant username u = true →
      Q () ⟨{ s.store with users := a ++ b }, s.disk.setFile (u.place s.store.authDir) none⟩)
    (hE : ∀ e, E e s) : Post (deleteUser tenant username) Q E s := by
  refine Post.bind (post_get.mpr ?_)
  rcases hfind : s.store.users.findIdx? (User.Is tenant username) with _ | i
  · exact hE _
  obtain ⟨a, u, b, husers, rfl, his⟩ := exists_split_of_findIdx? hfind
  have hplace : s.disk.locate (userFilePath s.store.authDir tenant username) =
      some (u.place s.store.authDir) := by
    rw [User.place, User.fileName_of_is his]
    refine locate_plain (isPlain_userFileName ?_ username)
    rw [← (User.is_iff.mp his).1]
    exact htenants u (by simp [husers])
  obtain ⟨bytes, hfile⟩ := hstored u (by simp [husers])
  have hremove : s.disk.remove (userFilePath s.store.authDir tenant username) =
      .ok (s.disk.setFile (u.place s.store.authDir) none) := by
    simp [FileTree.remove, hplace, hfile]
  refine Post.bind (post_modify.mpr ?_)
  dsimp only
  rw [if_pos (pathExists_eq_true hplace hfile)]
  refine post_onDisk.mpr (post_step_ok hremove ?_)
  have herase : s.store.users.eraseIdx a.length = a ++ b := by
    rw [husers, eraseIdx_append_of_length_le le_rfl]
    simp
  rw [herase]
  exact hQ a u b husers his

omit [PrettyJson JwtDiskConfig] in
theorem updateRoles_rule {roles : List RoleAssignment} (hlayout : Layout s.disk s.store.authDir)
    (hdir : s.disk.dirs (Auth.usersDir s.store.authDir) = true)
    (htenants : ∀ u ∈ s.store.users, '/' ∉ u.tenant.toList)
    (hQ : ∀ a u b, s.store.users = a ++ u :: b → User.Is tenant username u = true →
      let u' : User := { u with roles }
      Q () ⟨{ s.store with users := a ++ u' :: b }, s.disk.setFile (u.place s.store.authDir)
        (some (utf8 (PrettyJson.toStringPretty u')))⟩) (hE : ∀ e, E e s) :
    Post (updateRoles tenant username roles) Q E s := by
  refine Post.bind (post_get.mpr ?_)
  rcases hfind : s.store.users.findIdx? (User.Is tenant username) with _ | i
  · exact hE _
  obtain ⟨a, u, b, husers, rfl, his⟩ := exists_split_of_findIdx? hfind
  have hmodify : s.store.users.modify a.length (fun u => { u with roles }) =
      a ++ { u with roles } :: b := by
    rw [husers, modify_eq_take_cons_drop (by simp)]
    simp
  refine Post.bind (post_modify.mpr ?_)
  dsimp only
  rw [hmodify]
  have hget : (a ++ { u with roles } :: b)[a.length]? = some { u with roles } := by simp
  rw [hget]
  exact saveUser_rule hlayout hdir (htenants u (by simp [husers])) (hQ a u b husers his)

end Rules

/-! ### Memory and directory stay in step -/

variable {u : User}

theorem Synced.create (h : Synced s) (htenant : '/' ∉ u.tenant.toList)
    (hname : u.fileName ∉ s.store.users.map User.fileName) :
    Synced ⟨{ s.store with users := s.store.users ++ [u] }, s.disk.setFile
      (u.place s.store.authDir) (some (utf8 (PrettyJson.toStringPretty u)))⟩ := by
  have hmem {v : User} (hv : v ∈ s.store.users ++ [u]) : v ∈ s.store.users ∨ v = u := by
    simpa using hv
  refine ⟨h.layout.setFile (isFile_user _ _), h.usersDir, ?_, ?_, ?_, ?_, ?_⟩
  · obtain ⟨config, hconfig⟩ := h.config
    exact ⟨config, hconfig.setFile_user _ _⟩
  · intro v hv
    rcases hmem hv with hold | rfl
    · exact h.tenants v hold
    · exact htenant
  · rw [map_append]
    exact nodup_append.mpr ⟨h.names, by simp, by
      intro x hx y hy hxy
      obtain rfl : y = u.fileName := by simpa using hy
      exact hname (hxy ▸ hx)⟩
  · intro v hv
    rcases hmem hv with hold | rfl
    · have hne : v.place s.store.authDir ≠ u.place s.store.authDir := fun heq =>
        hname (User.place_inj.mp heq ▸ mem_map_of_mem hold)
      rw [files_setFile_ne hne]
      exact h.stored v hold
    · exact files_setFile_self _
  · intro name hholds
    rw [map_append, mem_append]
    by_cases heq : name = u.fileName
    · exact .inr (by simp [heq])
    · refine .inl (h.only name ?_)
      rw [← hholds, holds, holds, files_setFile_ne (by simpa [User.place] using heq), dirs_setFile]

variable {a b : List User}

variable {users : List User}

omit [Rsa] [PrettyJson JwtDiskConfig] [PrettyJson User] in
theorem fileName_ne_of_split {v : User} (hnames : (users.map User.fileName).Nodup)
    (hsplit : users = a ++ u :: b) (hv : v ∈ a ++ b) : v.fileName ≠ u.fileName := by
  rw [hsplit, map_append] at hnames
  have hnot := (nodup_middle.mp hnames).notMem
  rw [← map_append] at hnot
  exact fun heq => hnot (heq ▸ mem_map_of_mem hv)

theorem Synced.delete (h : Synced s) (hsplit : s.store.users = a ++ u :: b) :
    Synced ⟨{ s.store with users := a ++ b }, s.disk.setFile (u.place s.store.authDir) none⟩ := by
  have hmem {v : User} (hv : v ∈ a ++ b) : v ∈ s.store.users := by
    rw [hsplit]
    simp only [mem_append] at hv ⊢
    tauto
  refine ⟨h.layout.setFile (isFile_user _ _), h.usersDir, ?_, ?_, ?_, ?_, ?_⟩
  · obtain ⟨config, hconfig⟩ := h.config
    exact ⟨config, hconfig.setFile_user _ _⟩
  · exact fun v hv => h.tenants v (hmem hv)
  · have hnames := h.names
    rw [hsplit] at hnames
    exact hnames.sublist ((List.Sublist.refl a).append (sublist_cons_self u b) |>.map _)
  · intro v hv
    have hne := fileName_ne_of_split h.names hsplit hv
    rw [files_setFile_ne fun heq => hne (User.place_inj.mp heq)]
    exact h.stored v (hmem hv)
  · intro name hholds
    have hne : name ≠ u.fileName := by
      rintro rfl
      have hdir := h.layout.dirs_eq_false (isFile_user s.store.authDir u.fileName)
      simp [holds, User.place, hdir] at hholds
    rw [holds, files_setFile_ne (by simpa [User.place] using hne)] at hholds
    have hold := h.only name hholds
    rw [hsplit] at hold
    simp only [map_append, map_cons, mem_append, mem_cons] at hold ⊢
    tauto

theorem Synced.update (h : Synced s) {u' : User} (hsplit : s.store.users = a ++ u :: b)
    (htenant : '/' ∉ u'.tenant.toList) (hname : u'.fileName = u.fileName) :
    Synced ⟨{ s.store with users := a ++ u' :: b }, s.disk.setFile (u.place s.store.authDir)
      (some (utf8 (PrettyJson.toStringPretty u')))⟩ := by
  have hmem {v : User} (hv : v ∈ a ++ u' :: b) : v = u' ∨ v ∈ a ++ b := by
    simp only [mem_append, mem_cons] at hv ⊢
    tauto
  have hold {v : User} (hv : v ∈ a ++ b) : v ∈ s.store.users := by
    rw [hsplit]
    simp only [mem_append, mem_cons] at hv ⊢
    tauto
  have hsame : (a ++ u' :: b).map User.fileName = s.store.users.map User.fileName := by
    rw [hsplit]
    simp [hname]
  refine ⟨h.layout.setFile (isFile_user _ _), h.usersDir, ?_, ?_, hsame ▸ h.names, ?_, ?_⟩
  · obtain ⟨config, hconfig⟩ := h.config
    exact ⟨config, hconfig.setFile_user _ _⟩
  · intro v hv
    rcases hmem hv with rfl | hv
    · exact htenant
    · exact h.tenants v (hold hv)
  · intro v hv
    rcases hmem hv with rfl | hv
    · show (s.disk.setFile (u.place s.store.authDir) _).files (v.place s.store.authDir) = _
      rw [User.place_inj.mpr hname]
      exact files_setFile_self _
    · have hne := fileName_ne_of_split h.names hsplit hv
      rw [files_setFile_ne fun heq => hne (User.place_inj.mp heq)]
      exact h.stored v (hold hv)
  · intro name hholds
    show name ∈ (a ++ u' :: b).map User.fileName
    rw [hsame]
    by_cases heq : name = u.fileName
    · rw [heq]
      exact mem_map_of_mem (by simp [hsplit])
    · rw [holds, files_setFile_ne (by simpa [User.place] using heq), dirs_setFile] at hholds
      exact h.only name hholds

/-! ### Calls and runs -/

inductive UserCall where
  | createUser (tenant username : String) (new : NewUser) (roles : List RoleAssignment)
  | deleteUser (tenant username : String)
  | updateRoles (tenant username : String) (roles : List RoleAssignment)

def UserCall.perform : UserCall → Store Unit
  | createUser tenant username new roles => AuthStore.createUser tenant username new roles
  | deleteUser tenant username => AuthStore.deleteUser tenant username
  | updateRoles tenant username roles => AuthStore.updateRoles tenant username roles

def isAdmin (u : User) : Bool := u.roles.any fun r => r.role = .serverAdmin

/-- A new user gets a file of its own in the directory of users; there remains an
administrator, and the user of the node remains. -/
def UserCall.Sound (store : AuthStore) : UserCall → Prop
  | createUser tenant username _ _ => '/' ∉ tenant.toList ∧
    userFileName tenant username ∉ store.users.map User.fileName
  | deleteUser tenant username =>
    (∃ u ∈ store.users, User.Is tenant username u = false ∧ isAdmin u = true) ∧
    ¬ (tenant = SYSTEM_TENANT ∧ username = CLUSTER_PEER_USERNAME)
  | updateRoles tenant username roles =>
    (∃ u ∈ store.users, User.Is tenant username u = false ∧ isAdmin u = true) ∨
    (roles.any fun r => r.role = .serverAdmin) = true

/-- Calls that all succeed, and meet `Allowed` in the store they find. -/
inductive UserRun (Allowed : AuthStore → UserCall → Prop) : AuthState → AuthState → Prop where
  | nil (s : AuthState) : UserRun Allowed s s
  | call {s s' : AuthState} {c : UserCall} (run : UserRun Allowed s s')
      (allowed : Allowed s'.store c) (ok : (c.perform s').res = .ok ()) :
      UserRun Allowed s (c.perform s').st

/-- At most one file is written or removed, and it is in the directory of users. -/
def Confined (s s' : AuthState) : Prop :=
  ∃ name bytes, s'.disk = s.disk.setFile (Auth.usersDir s.store.authDir ++ [name]) bytes

variable {store : AuthStore}

omit [PrettyJson JwtDiskConfig] [PrettyJson User] in
theorem staffed_iff : Staffed store ↔
    (∃ u ∈ store.users, isAdmin u = true) ∧
    ∃ u ∈ store.users, User.Is SYSTEM_TENANT CLUSTER_PEER_USERNAME u = true := by
  constructor
  · rintro ⟨hadmin, hpeer⟩
    rw [getUser, find?_isSome] at hpeer
    exact ⟨any_eq_true.mp hadmin, hpeer⟩
  · rintro ⟨hadmin, hpeer⟩
    refine ⟨any_eq_true.mpr hadmin, ?_⟩
    rw [getUser, find?_isSome]
    exact hpeer

theorem UserCall.step (h : Synced s) (hstaffed : Staffed s.store) {c : UserCall}
    (hsound : c.Sound s.store) (hok : (c.perform s).res = .ok ()) :
    Synced (c.perform s).st ∧ Staffed (c.perform s).st.store ∧
      Confined s (c.perform s).st := by
  obtain ⟨⟨admin, hadmin, hrole⟩, peer, hpeer, hpeerIs⟩ := staffed_iff.mp hstaffed
  suffices hpost : Post c.perform (fun _ s' => Synced s' ∧ Staffed s'.store ∧ Confined s s')
      (fun _ _ => True) s from hpost.of_ok hok
  cases c with
  | createUser tenant username new roles =>
    refine createUser_rule h.layout h.usersDir hsound.1 (fun _ _ => trivial) ?_
    intro hash now _ _
    refine ⟨h.create hsound.1 hsound.2, staffed_iff.mpr ⟨?_, ?_⟩, ⟨_, _, rfl⟩⟩
    · exact ⟨admin, by simp [hadmin], hrole⟩
    · exact ⟨peer, by simp [hpeer], hpeerIs⟩
  | deleteUser tenant username =>
    obtain ⟨⟨other, hother, hnot, hotherRole⟩, hnode⟩ := hsound
    refine deleteUser_rule h.tenants (fun u hu => ⟨_, h.stored u hu⟩) ?_ (fun _ => trivial)
    intro a u b hsplit his
    -- the others remain
    have hremains {v : User} (hv : v ∈ s.store.users) (hne : v ≠ u) : v ∈ a ++ b := by
      rw [hsplit] at hv
      simp only [mem_append, mem_cons] at hv ⊢
      tauto
    refine ⟨h.delete hsplit, staffed_iff.mpr ⟨?_, ?_⟩, ⟨_, _, rfl⟩⟩
    · refine ⟨other, hremains hother ?_, hotherRole⟩
      rintro rfl
      rw [his] at hnot
      cases hnot
    · refine ⟨peer, hremains hpeer ?_, hpeerIs⟩
      rintro rfl
      obtain ⟨rfl, rfl⟩ := User.is_iff.mp his
      exact hnode (User.is_iff.mp hpeerIs)
  | updateRoles tenant username roles =>
    refine updateRoles_rule h.layout h.usersDir h.tenants ?_ (fun _ => trivial)
    intro a u b hsplit his
    have hremains {v : User} (hv : v ∈ s.store.users) (hne : v ≠ u) :
        v ∈ a ++ { u with roles } :: b := by
      rw [hsplit] at hv
      simp only [mem_append, mem_cons] at hv ⊢
      tauto
    refine ⟨h.update hsplit (h.tenants u (by simp [hsplit])) rfl, staffed_iff.mpr ⟨?_, ?_⟩,
      ⟨_, _, rfl⟩⟩
    · rcases hsound with ⟨other, hother, hnot, hotherRole⟩ | hroles
      · refine ⟨other, hremains hother ?_, hotherRole⟩
        rintro rfl
        rw [his] at hnot
        cases hnot
      · exact ⟨{ u with roles }, by simp, hroles⟩
    · by_cases heq : peer = u
      · refine ⟨{ u with roles }, by simp, ?_⟩
        exact heq ▸ hpeerIs
      · exact ⟨peer, hremains hpeer heq, hpeerIs⟩

theorem UserRun.synced {s₀ : AuthState} (hrun : UserRun (fun store c => c.Sound store) s₀ s)
    (h : Synced s₀) (hstaffed : Staffed s₀.store) :
    Synced s ∧ Staffed s.store := by
  induction hrun with
  | nil => exact ⟨h, hstaffed⟩
  | call _ allowed ok ih =>
    obtain ⟨h', hstaffed'⟩ := ih
    obtain ⟨hnext, hnextStaffed, -⟩ := UserCall.step h' hstaffed' allowed ok
    exact ⟨hnext, hnextStaffed⟩

/-! ### The users that are read back -/

variable {t : FileTree}

variable {entries : List String}

omit [Rsa] [PrettyJson JwtDiskConfig] in
theorem loadUsers_stored {dir : Place} (htenants : ∀ u ∈ users, '/' ∉ u.tenant.toList)
    (hstored : ∀ u ∈ users, t.files (u.place dir) = some (utf8 (PrettyJson.toStringPretty u)))
    (hentries : ∀ name ∈ entries, name ∈ users.map User.fileName) :
    ∃ us, Reads (loadUsers dir entries) us t ∧ us.map User.fileName = entries ∧
      ∀ u ∈ us, u ∈ users := by
  induction entries with
  | nil => exact ⟨[], reads_pure, rfl, by simp⟩
  | cons name entries ih =>
    obtain ⟨us, hread, hnames, hsub⟩ := ih fun x hx => hentries x (by simp [hx])
    obtain ⟨u, hu, rfl⟩ := mem_map.mp (hentries name (by simp))
    refine ⟨u :: us, ?_, by simp [hnames], by simpa [hu] using hsub⟩
    have hext : hasJsonExtension u.fileName = true := hasJsonExtension_userFileName _ _
    rw [loadUsers, if_pos hext]
    have htext : t.readText (filePath (Auth.usersDir dir) u.fileName) =
        .ok (PrettyJson.toStringPretty u) :=
      readText_eq_ok (locate_plain (isPlain_userFileName (htenants u hu) u.username))
        (hstored u hu)
    refine (reads_look (a := PrettyJson.toStringPretty u) ?_).bind (hread.bind ?_)
    · rw [htext]
      rfl
    · rw [PrettyJson.fromStr_toStringPretty]
      exact reads_pure

omit [PrettyJson JwtDiskConfig] [PrettyJson User] in
theorem post_withStore {x : Store Unit} {Q : AuthStore → FileTree → Prop}
    {E : AuthError → FileTree → Prop} :
    Post (withStore store x) Q E t ↔
      Post x (fun _ s => Q s.store s.disk) (fun e s => E e s.disk) ⟨store, t⟩ := by
  unfold Post withStore
  rcases h : (x ⟨store, t⟩).res with e | u <;> simp [h, Except.map]

omit [PrettyJson JwtDiskConfig] in
theorem bootstrap_staffed (h : Staffed s.store) (password : Option String) (new : NewUser) :
    Reads (bootstrapAdmin password new) () s ∧ Reads (ensureClusterPeer new) () s := by
  constructor
  · refine reads_get.bind ?_
    rw [if_pos h.admin]
    exact reads_pure
  · refine reads_get.bind ?_
    obtain ⟨peer, hpeer⟩ := Option.isSome_iff_exists.mp h.peer
    rw [hpeer]
    exact reads_pure

/-- All users are found, each once, whatever the order of the files. -/
theorem Synced.loadUsers (h : Synced s)
    (hlists : s.disk.Lists (Auth.usersDir s.store.authDir) entries)
    (hfiles : t.files = s.disk.files) :
    ∃ us, us.Perm s.store.users ∧ Reads (AuthStore.loadUsers s.store.authDir entries) us t := by
  have hentries : ∀ name ∈ entries, name ∈ s.store.users.map User.fileName :=
    fun name hname => h.only name ((hlists.mem_iff name).mp hname)
  obtain ⟨us, hread, hnames, hsub⟩ := loadUsers_stored h.tenants
    (fun u hu => hfiles ▸ h.stored u hu) hentries
  refine ⟨us, ?_, hread⟩
  have hnodup : (us.map User.fileName).Nodup := hnames ▸ hlists.nodup
  refine (perm_ext_iff_of_nodup hnodup.of_map h.names.of_map).mpr fun u => ⟨hsub u, ?_⟩
  intro hu
  -- the file of the user is listed, and no other user has it
  have hlisted : u.fileName ∈ us.map User.fileName := by
    rw [hnames, hlists.mem_iff]
    simp [holds, show Auth.usersDir s.store.authDir ++ [u.fileName] =
      u.place s.store.authDir from rfl, h.stored u hu]
  obtain ⟨v, hv, heq⟩ := mem_map.mp hlisted
  exact inj_on_of_nodup_map h.names (hsub v hv) hu heq ▸ hv

theorem synced_empty {dir : Place} {config : JwtConfig} (hlayout : Layout t dir)
    (hdir : t.dirs (Auth.usersDir dir) = true) (hconfig : ∃ stored, ConfigStored t dir stored)
    (hnone : ∀ name, t.files (Auth.usersDir dir ++ [name]) = none) :
    Synced ⟨⟨dir, config, []⟩, t⟩ := by
  refine ⟨hlayout, hdir, hconfig, by simp, by simp, by simp, ?_⟩
  intro name hholds
  have hfalse := hlayout.dirs_eq_false (isFile_user dir name)
  rw [holds, hnone, hfalse] at hholds
  cases hholds

theorem Synced.kept (h : Synced s) (hkept : UsersKept s.store.authDir s.disk t)
    (hconfig : ∃ config, ConfigStored t s.store.authDir config) (config : JwtConfig) :
    Synced ⟨{ s.store with jwtConfig := config }, t⟩ := by
  refine ⟨hkept.layout, hkept.usersDir, hconfig, h.tenants, h.names, ?_, ?_⟩
  · exact fun u hu => (hkept.files _).trans (h.stored u hu)
  · exact fun name hholds => h.only name ((hkept.holds h.layout name).mp hholds)

theorem Synced.usersKept (h : Synced s) : UsersKept s.store.authDir s.disk s.disk :=
  ⟨h.layout, h.usersDir, fun _ => rfl⟩

theorem Synced.setToken (h : Synced s) (text : List UInt8) :
    Synced ⟨s.store, (s.disk.addDirs (jwtDir s.store.authDir)).setFile
      (jwtDir s.store.authDir ++ ["cluster_peer.token"]) (some text)⟩ := by
  obtain ⟨config, hconfig⟩ := h.config
  exact h.kept ((h.usersKept.addDirs (jwtDir_isPrefix _)).setFile_jwt (by decide) _)
    ⟨config, (hconfig.addDirs _).setFile_token _⟩ s.store.jwtConfig

theorem Synced.lists (h : Synced s) :
    s.disk.Lists (Auth.usersDir s.store.authDir) (s.store.users.map User.fileName) := by
  refine ⟨h.names, fun name => ⟨fun hname => ?_, h.only name⟩⟩
  obtain ⟨u, hu, rfl⟩ := mem_map.mp hname
  have hstored := h.stored u hu
  rw [User.place] at hstored
  rw [holds, hstored]
  rfl

end Directories

/-! ### Opening the store again -/

def nothing : FileTree := ⟨fun _ => none, fun _ => false⟩

theorem fresh_nothing (dir : Place) : Fresh nothing dir :=
  ⟨fun _ => rfl, fun _ _ => rfl, fun _ _ => rfl⟩

theorem lists_nothing (dir : Place) : nothing.Lists dir [] := ⟨by simp, by simp [nothing, holds]⟩

variable {users : List User}

theorem fileName_not_mem_of_system {name : String}
    (hsystem : ∀ u ∈ users, u.tenant = SYSTEM_TENANT) (hname : name.toList.head? ≠ some '_') :
    name ∉ users.map User.fileName := by
  intro hmem
  obtain ⟨u, hu, rfl⟩ := mem_map.mp hmem
  rw [User.fileName, hsystem u hu] at hname
  simp [userFileName, SYSTEM_TENANT] at hname

variable [Rsa] [Sha256] [JsonWebToken] [PrettyJson JwtDiskConfig] [PrettyJson User]
  {s s' : AuthState}

variable {now : UInt64}

omit [PrettyJson JwtDiskConfig] [PrettyJson User] in
theorem issueClusterPeerToken_rule {Q : Unit → AuthState → Prop} {E : AuthError → AuthState → Prop}
    (hlayout : Layout s.disk s.store.authDir)
    (hQ : ∀ t, (t = s.disk ∨ ∃ text, t = (s.disk.addDirs (jwtDir s.store.authDir)).setFile
      (jwtDir s.store.authDir ++ ["cluster_peer.token"]) (some text)) → Q () ⟨s.store, t⟩) :
    Post (issueClusterPeerToken (.ok now)) Q E s := by
  have hjwt := jwtDir_isPrefix s.store.authDir
  have hmade := hlayout.addDirs (.inr hjwt)
  refine Post.bind (post_get.mpr ?_)
  rcases s.store.getUser SYSTEM_TENANT CLUSTER_PEER_USERNAME with _ | peer
  · exact hQ _ (.inl rfl)
  refine Post.bind ?_
  obtain ⟨token, htoken⟩ :=
    exists_generateToken peer s.store.jwtConfig CLUSTER_PEER_TTL_SECS "access" now
  rw [htoken]
  refine post_lift_ok.mpr (Post.bind (post_onDisk.mpr (post_step_ok
    (hlayout.createDirAll (.inr hjwt)) ?_)))
  refine post_onDisk.mpr (post_step_ok (write_eq_ok_of
    (locate_plain ⟨by decide, by decide, by decide, by decide⟩)
    (hmade.dirs_eq_false (isFile_jwt _ (by decide))) ?_) (hQ _ (.inr ⟨_, rfl⟩)))
  rw [dropLast_concat]
  exact dirs_addDirs.mpr (.inr prefix_rfl)

/-- Opening the store again gives the same users, whatever the settings, and in
whatever order the files are listed. -/
def Reopens (s : AuthState) : Prop :=
  ∀ settings password (boot : Boot) now, boot.now = .ok now →
    s.disk.Lists (Auth.usersDir s.store.authDir) boot.entries →
    Post (openStore s.store.authDir settings password boot)
      (fun store _ => store.users.Perm s.store.users) (fun _ _ => False) s.disk

variable {settings : TokenSettings} {password : Option String} {boot : Boot}

variable {config : JwtConfig}

theorem Synced.openStore (h : Synced s) (hstaffed : Staffed s.store)
    (hconfig : ConfigStored s.disk s.store.authDir config) (hnow : boot.now = .ok now)
    (hlists : s.disk.Lists (Auth.usersDir s.store.authDir) boot.entries) :
    Post (AuthStore.openStore s.store.authDir settings password boot)
      (fun store _ => store.users.Perm s.store.users ∧ store.jwtConfig = config)
      (fun _ _ => False) s.disk := by
  have hdirPrefix : s.store.authDir <+: Auth.usersDir s.store.authDir := ⟨["users"], rfl⟩
  have hmade := h.layout.addDirs (.inl hdirPrefix)
  have hmade' := hmade.addDirs (.inl prefix_rfl)
  obtain ⟨us, hperm, hread⟩ := h.loadUsers (t := (s.disk.addDirs s.store.authDir).addDirs
    (Auth.usersDir s.store.authDir)) hlists rfl
  refine Post.bind (post_step_ok (h.layout.createDirAll (.inl hdirPrefix)) ?_)
  refine Post.bind (post_step_ok (hmade.createDirAll (.inl prefix_rfl)) ?_)
  refine Post.bind ((loadOrCreateJwtConfig_stored ((hconfig.addDirs _).addDirs _) settings
    boot.keys).post.mpr ?_)
  refine Post.bind (hread.post.mpr (post_withStore.mpr ?_))
  -- nobody is missing
  have hstaffed' : Staffed ⟨s.store.authDir, config, us⟩ := by
    rw [staffed_iff] at hstaffed ⊢
    obtain ⟨⟨admin, hadmin, hrole⟩, peer, hpeer, hpeerIs⟩ := hstaffed
    exact ⟨⟨admin, hperm.mem_iff.mpr hadmin, hrole⟩, peer, hperm.mem_iff.mpr hpeer, hpeerIs⟩
  refine Post.bind ((bootstrap_staffed hstaffed' password boot.admin).1.post.mpr ?_)
  refine Post.bind ((bootstrap_staffed hstaffed' password boot.peer).2.post.mpr ?_)
  rw [hnow]
  exact issueClusterPeerToken_rule hmade' fun _ _ => ⟨hperm, rfl⟩

theorem Synced.reopens (h : Synced s) (hstaffed : Staffed s.store) : Reopens s := by
  intro settings password boot now hnow hlists
  obtain ⟨config, hconfig⟩ := h.config
  exact (h.openStore hstaffed hconfig hnow hlists).mono (fun _ _ hq => hq.1) fun _ _ he => he

/-! ### A new store -/

/-- A first start that has what it needs: a password for the administrator, the
keys, the hashes and the time. -/
structure BootOk (settings : TokenSettings) (password : Option String) (boot : Boot) : Prop where
  password : password.isSome = true
  ring : settings.bootstrapAlgorithm = .rs256 → ∃ ring, boot.keys.ring = .ok ring
  admin : (∃ hash, boot.admin.hash = .ok hash) ∧ ∃ now, boot.admin.now = .ok now
  peer : (∃ hash, boot.peer.hash = .ok hash) ∧ ∃ now, boot.peer.now = .ok now
  now : ∃ now, boot.now = .ok now

theorem bootstrap_empty (h : Synced ⟨⟨dir, config, []⟩, t⟩) :
    Post (do
        bootstrapAdmin password boot.admin
        bootstrapClusterPeer boot.peer boot.now)
      (fun _ s => Synced s ∧ Staffed s.store ∧ (∀ u ∈ s.store.users, u.tenant = SYSTEM_TENANT) ∧
        s.store.jwtConfig = config ∧ s.store.authDir = dir ∧ SameKeys dir t s.disk)
      (fun _ _ => ¬ BootOk settings password boot) ⟨⟨dir, config, []⟩, t⟩ := by
  have hslash : '/' ∉ SYSTEM_TENANT.toList := by decide
  refine Post.bind (Post.bind (post_get.mpr ?_))
  rcases hpassword : password with _ | pw
  · exact fun hok => by simpa [hpassword] using hok.password
  refine createUser_rule h.layout h.usersDir hslash ?_ ?_
  · rintro e (hexists | hhash | hnow) hok
    · simp at hexists
    · obtain ⟨hash, hhash'⟩ := hok.admin.1
      cases hhash.symm.trans hhash'
    · obtain ⟨now, hnow'⟩ := hok.admin.2
      cases hnow.symm.trans hnow'
  intro hash now _ _
  have hadmin := h.create (u := ⟨"admin", SYSTEM_TENANT, hash, [⟨.serverAdmin, .server⟩], now⟩)
    hslash (by simp)
  refine Post.bind (Post.bind (post_get.mpr ?_))
  -- the user of the node is not there yet
  refine createUser_rule hadmin.layout hadmin.usersDir hslash ?_ ?_
  · rintro e (hexists | hhash | hnow) hok
    · simp [User.Is, CLUSTER_PEER_USERNAME] at hexists
    · obtain ⟨hash, hhash'⟩ := hok.peer.1
      cases hhash.symm.trans hhash'
    · obtain ⟨now, hnow'⟩ := hok.peer.2
      cases hnow.symm.trans hnow'
  intro hash' now' _ _
  have hpeer := hadmin.create (u := ⟨CLUSTER_PEER_USERNAME, SYSTEM_TENANT, hash',
    [⟨.clusterPeer, .server⟩], now'⟩) hslash (by simp [User.fileName]; decide)
  have hkeys (name name' : String) (b b' : Option (List UInt8)) :=
    (sameKeys_user t dir name b).trans (sameKeys_user _ dir name' b')
  rcases hnow : boot.now with e | now
  · refine Post.bind (post_get.mpr (Post.bind (post_lift_error.mpr fun hok => ?_)))
    obtain ⟨now, hnow'⟩ := hok.now
    cases hnow.symm.trans hnow'
  · refine issueClusterPeerToken_rule hpeer.layout ?_
    rintro t' (rfl | ⟨text, rfl⟩)
    · exact ⟨hpeer, ⟨rfl, rfl⟩, by simp, rfl, rfl, hkeys _ _ _ _⟩
    · exact ⟨hpeer.setToken text, ⟨rfl, rfl⟩, by simp, rfl, rfl,
        (hkeys _ _ _ _).trans ((sameKeys_addDirs _ _ _).trans (sameKeys_token _ _ _))⟩

theorem openStore_fresh (hfresh : Fresh t dir) (hlists : t.Lists (Auth.usersDir dir) boot.entries) :
    Post (openStore dir settings password boot)
      (fun store t' => Synced ⟨store, t'⟩ ∧ Staffed store ∧
        (∀ u ∈ store.users, u.tenant = SYSTEM_TENANT) ∧
        ∀ ring, settings.bootstrapAlgorithm = .rs256 → boot.keys.ring = .ok ring →
          ring.current.kid ≠ ring.next.kid →
          store.jwtConfig = ⟨.rs256 ring, settings.accessTtlSecs, settings.refreshTtlSecs⟩ ∧
          RingStored t' store.authDir ring settings.accessTtlSecs settings.refreshTtlSecs)
      (fun _ _ => ¬ BootOk settings password boot) t := by
  have hlayout := hfresh.layout
  have hdirPrefix : dir <+: Auth.usersDir dir := ⟨["users"], rfl⟩
  have hmade := hlayout.addDirs (.inl hdirPrefix)
  have hmade' := hmade.addDirs (.inl prefix_rfl)
  let t₁ := (t.addDirs dir).addDirs (Auth.usersDir dir)
  have hnothing (names : List String) : t₁.files (dir ++ names) = none := hfresh.files names
  have habsent {l : Place} {p : FilePath} (hp : t₁.locate p = some l) (hfile : IsFile dir l) :
      t₁.pathExists p = false := by
    have hdirs := hmade'.dirs_eq_false hfile
    obtain ⟨names, rfl, -⟩ := hfile
    simp [pathExists, hp, holds, hnothing, t₁, hdirs]
  refine Post.bind (post_step_ok (hlayout.createDirAll (.inl hdirPrefix)) ?_)
  refine Post.bind (post_step_ok (hmade.createDirAll (.inl prefix_rfl)) ?_)
  -- there are no keys, so new ones are made
  refine Post.bind (Post.bind (post_get.mpr ?_))
  rw [if_neg (by simp [habsent locate_config (isFile_jwt dir (by decide)), t₁]),
    if_neg (by simp [habsent locate_secret (isFile_secret dir), t₁])]
  refine createJwtConfig_spec hmade' ?_ ?_
  · intro config t' hlayout' hconfig hmono husers hring
    have hempty : Synced ⟨⟨dir, config, []⟩, t'⟩ := by
      refine synced_empty hlayout' (hmono _ ?_) hconfig fun name => (husers name).trans ?_
      · exact dirs_addDirs.mpr (.inr prefix_rfl)
      · exact (congrArg t.files (append_assoc ..)).trans (hfresh.files _)
    rw [hfresh.entries_eq_nil hlists]
    refine Post.bind (reads_pure.post.mpr (post_withStore.mpr
      ((bootstrap_empty hempty).mono ?_ fun _ _ he => he)))
    rintro - s ⟨hsynced, hstaffed, hsystem, hsame, rfl, hkeys⟩
    refine ⟨hsynced, hstaffed, hsystem, fun ring halg hnew hne => ?_⟩
    obtain ⟨rfl, hstored⟩ := hring ring halg hnew hne
    exact ⟨hsame, hstored.congr hkeys⟩
  · rintro e t' halg hring hok
    obtain ⟨ring, hring'⟩ := hok.ring halg
    cases hring.symm.trans hring'

/-! ### Whole runs -/

/-- **Users survive reopening.**  From a new store on, as long as every call meets
`Sound`: opening the store again gives the users in memory, and the next call
that succeeds touches at most one file, in the directory of users. -/
theorem users_survive_reopening {t : FileTree} {dir : Place} {settings : TokenSettings}
    {password : Option String} {boot : Boot} {store : AuthStore} (hfresh : Fresh t dir)
    (hlists : t.Lists (Auth.usersDir dir) boot.entries)
    (hopen : (openStore dir settings password boot t).res = .ok store)
    (hrun : UserRun (fun store c => c.Sound store)
      ⟨store, (openStore dir settings password boot t).st⟩ s) :
    Reopens s ∧ ∀ c : UserCall, c.Sound s.store → (c.perform s).res = .ok () →
      Confined s (c.perform s).st := by
  obtain ⟨hsynced, hstaffed, -, -⟩ := (openStore_fresh hfresh hlists).of_ok hopen
  obtain ⟨h, hs⟩ := hrun.synced hsynced hstaffed
  refine ⟨h.reopens hs, fun c hsound hok => ?_⟩
  exact (UserCall.step h hs hsound hok).2.2

/-! ### One file for two users -/

def firstBoot : Boot where
  keys := ⟨List.replicate 32 0, rfl, .error (.jwtError "RSA keygen failed")⟩
  entries := []
  admin := ⟨.ok "$argon2id$1", .ok 1⟩
  peer := ⟨.ok "$argon2id$2", .ok 1⟩
  now := .ok 1

def firstSettings : TokenSettings := ⟨3600, 604800, .hs256⟩

def firstOpen (dir : Place) : Disk AuthStore :=
  openStore dir firstSettings (some "correct horse") firstBoot

theorem firstOpen_ok (dir : Place) : ∃ store, (firstOpen dir nothing).res = .ok store ∧
    Synced ⟨store, (firstOpen dir nothing).st⟩ ∧ Staffed store ∧
    ∀ u ∈ store.users, u.tenant = SYSTEM_TENANT := by
  have hpost : Post (firstOpen dir) _ _ nothing :=
    openStore_fresh (fresh_nothing dir) (lists_nothing _)
  have hok : BootOk firstSettings (some "correct horse") firstBoot :=
    ⟨rfl, by simp [firstSettings], ⟨⟨_, rfl⟩, _, rfl⟩, ⟨⟨_, rfl⟩, _, rfl⟩, _, rfl⟩
  obtain ⟨store, hopen, hsynced, hstaffed, hsystem, -⟩ :=
    (hpost.mono (fun _ _ h => h) fun _ _ hnot => hnot hok).exists_ok
  exact ⟨store, hopen, hsynced, hstaffed, hsystem⟩

omit [Sha256] [JsonWebToken] in
theorem createUser_ok (h : Synced s) {tenant username hash : String} {roles : List RoleAssignment}
    (htenant : '/' ∉ tenant.toList) (hnew : ∀ u ∈ s.store.users, u.tenant ≠ tenant) :
    let u : User := ⟨username, tenant, hash, roles, now⟩
    (createUser tenant username ⟨.ok hash, .ok now⟩ roles s).res = .ok () ∧
    (createUser tenant username ⟨.ok hash, .ok now⟩ roles s).st =
      ⟨{ s.store with users := s.store.users ++ [u] },
        s.disk.setFile (u.place s.store.authDir) (some (utf8 (PrettyJson.toStringPretty u)))⟩ := by
  intro u
  have hpost : Post (createUser tenant username ⟨.ok hash, .ok now⟩ roles) (fun _ s' => s' =
      ⟨{ s.store with users := s.store.users ++ [u] },
        s.disk.setFile (u.place s.store.authDir) (some (utf8 (PrettyJson.toStringPretty u)))⟩)
      (fun _ _ => False) s := by
    refine createUser_rule h.layout h.usersDir htenant ?_ ?_
    · rintro e (hexists | hhash | hnow)
      · obtain ⟨v, hv, his⟩ := any_eq_true.mp hexists
        exact hnew v hv (User.is_iff.mp his).1
      · cases hhash
      · cases hnow
    · intro hash' now' hhash hnow
      obtain rfl := Except.ok.inj hhash
      obtain rfl := Except.ok.inj hnow
      rfl
  obtain ⟨⟨⟩, hok, hst⟩ := hpost.exists_ok
  exact ⟨hok, hst⟩

theorem not_reopens_of_same_file (h : Synced s) {u v : User}
    (husers : s.store.users = users ++ [u]) (hstaffed : Staffed { s.store with users := users })
    (htenant : '/' ∉ v.tenant.toList) (hsame : v.fileName = u.fileName) :
    ¬ Reopens ⟨{ s.store with users := s.store.users ++ [v] },
      s.disk.setFile (v.place s.store.authDir) (some (utf8 (PrettyJson.toStringPretty v)))⟩ := by
  intro hreopens
  -- the directory is that of a store without the other user
  have hwithout : Synced ⟨{ s.store with users := users ++ [v] },
      s.disk.setFile (v.place s.store.authDir) (some (utf8 (PrettyJson.toStringPretty v)))⟩ := by
    rw [User.place_inj.mpr hsame]
    exact h.update husers htenant hsame
  have hstaffed' : Staffed { s.store with users := users ++ [v] } := by
    rw [staffed_iff] at hstaffed ⊢
    obtain ⟨⟨admin, hadmin, hrole⟩, peer, hpeer, hpeerIs⟩ := hstaffed
    exact ⟨⟨admin, by simp [hadmin], hrole⟩, peer, by simp [hpeer], hpeerIs⟩
  let boot : Boot := { firstBoot with entries := (users ++ [v]).map User.fileName }
  have hfound := hreopens firstSettings none boot 1 rfl hwithout.lists
  have hfound' := hwithout.reopens hstaffed' firstSettings none boot 1 rfl hwithout.lists
  obtain ⟨store, -, hperm, hperm'⟩ := (hfound.and hfound').mono (fun _ _ hq => hq)
    (fun _ _ he => he.1) |>.exists_ok
  have hlen := (hperm.symm.trans hperm').length_eq
  simp [husers] at hlen

def createC : UserCall := .createUser "a__b" "c" ⟨.ok "$argon2id$3", .ok 2⟩ []

def createBC : UserCall := .createUser "a" "b__c" ⟨.ok "$argon2id$4", .ok 3⟩ []

theorem not_reopens_of_one_file (h : Synced s) (hstaffed : Staffed s.store)
    (hsystem : ∀ u ∈ s.store.users, u.tenant = SYSTEM_TENANT) :
    (createC.perform s).res = .ok () ∧ (createBC.perform (createC.perform s).st).res = .ok () ∧
      ¬ Reopens (createBC.perform (createC.perform s).st).st := by
  let u : User := ⟨"c", "a__b", "$argon2id$3", [], 2⟩
  -- the first user gets its file
  obtain ⟨hok, hst⟩ : (createC.perform s).res = .ok () ∧ (createC.perform s).st = _ :=
    createUser_ok h (by decide) fun w hw => by rw [hsystem w hw]; decide
  have hu : Synced (createC.perform s).st := by
    rw [hst]
    exact h.create (by decide) (fileName_not_mem_of_system hsystem (by decide))
  -- the second user gets the same file
  obtain ⟨hok', hst'⟩ : (createBC.perform (createC.perform s).st).res = .ok () ∧
      (createBC.perform (createC.perform s).st).st = _ := by
    refine createUser_ok hu (by decide) fun w hw => ?_
    rw [hst] at hw
    rcases mem_append.mp hw with hw | hw
    · rw [hsystem w hw]
      decide
    · rw [mem_singleton.mp hw]
      decide
  refine ⟨hok, hok', ?_⟩
  rw [hst']
  have husers : (createC.perform s).st.store.users = s.store.users ++ [u] := by rw [hst]
  refine not_reopens_of_same_file hu husers ?_ (by decide) (by decide)
  rw [hst]
  exact hstaffed

end AuthStore

namespace AuthStore

theorem users_survive_first_user :
    ∃ (_ : Rsa) (_ : Sha256) (_ : JsonWebToken) (_ : PrettyJson JwtDiskConfig)
      (_ : PrettyJson User) (store : AuthStore) (s : AuthState),
      (firstOpen ["auth"] nothing).res = .ok store ∧
      UserRun (fun store c => c.Sound store) ⟨store, (firstOpen ["auth"] nothing).st⟩ s ∧
      (∃ u ∈ s.store.users, u.tenant = "acme") ∧ Reopens s := by
  let rsa := unaryRsa
  let hash := plainHash
  obtain ⟨⟨token⟩, ⟨json⟩, ⟨json'⟩⟩ := exists_libraries
  obtain ⟨store, hopen, h, -, hsystem⟩ := firstOpen_ok ["auth"]
  let c : UserCall := .createUser "acme" "ann" ⟨.ok "$argon2id$3", .ok 2⟩ []
  obtain ⟨hok, hst⟩ : (c.perform ⟨store, (firstOpen ["auth"] nothing).st⟩).res = .ok () ∧
      (c.perform ⟨store, (firstOpen ["auth"] nothing).st⟩).st = _ :=
    createUser_ok h (by decide) fun w hw => by rw [hsystem w hw]; decide
  have hrun : UserRun (fun store c => c.Sound store) ⟨store, (firstOpen ["auth"] nothing).st⟩ _ :=
    .call (.nil _) (c := c) ⟨by decide, fileName_not_mem_of_system hsystem (by decide)⟩ hok
  refine ⟨rsa, hash, token, json, json', store, _, hopen, hrun, ?_, ?_⟩
  · rw [hst]
    exact ⟨_, mem_append_right _ (mem_singleton.mpr rfl), rfl⟩
  · exact (users_survive_reopening (fresh_nothing _) (lists_nothing _) hopen hrun).1

/-- Two users are created in a new store, and one of them is not found again. -/
theorem one_file_for_two_users :
    ∃ (_ : Rsa) (_ : Sha256) (_ : JsonWebToken) (_ : PrettyJson JwtDiskConfig)
      (_ : PrettyJson User) (store : AuthStore),
      (firstOpen ["auth"] nothing).res = .ok store ∧
      let s : AuthState := ⟨store, (firstOpen ["auth"] nothing).st⟩
      (createC.perform s).res = .ok () ∧ (createBC.perform (createC.perform s).st).res = .ok () ∧
        ¬ Reopens (createBC.perform (createC.perform s).st).st := by
  let rsa := unaryRsa
  let hash := plainHash
  obtain ⟨⟨token⟩, ⟨json⟩, ⟨json'⟩⟩ := exists_libraries
  obtain ⟨store, hopen, h, hstaffed, hsystem⟩ := firstOpen_ok ["auth"]
  exact ⟨rsa, hash, token, json, json', store, hopen,
    not_reopens_of_one_file h hstaffed hsystem⟩

end AuthStore

end Auth

end GrumpyDB
