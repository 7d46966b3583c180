/-
One database for one name.

`Serialised`: what is not in the cache has no handle, so that a call which misses the cache
opens the first one. The client may have the database open as well; `Separated` keeps the two
kinds of use apart.
-/
import GrumpyDB.Server.Databases

namespace GrumpyDB

namespace Tenancy

open FileTree List

/-! ### Names and keys -/

def DbName.IsPlain (n : DbName) : Prop := FileTree.IsPlain n.client ∧ FileTree.IsPlain n.name

theorem DbName.key_inj {m n : DbName} (hm : m.IsPlain) (hn : n.IsPlain) (h : m.key = n.key) :
    m = n := by
  have hlist := congrArg String.toList h
  simp only [key, String.toList_append, append_assoc] at hlist
  obtain ⟨hc, hd⟩ := append_sep_inj hm.1.noSlash hn.1.noSlash hlist
  cases m
  cases n
  simp only [DbName.mk.injEq]
  exact ⟨String.toList_injective hc, String.toList_injective hd⟩

/-! ### What the sections under the lock of the server change -/

namespace SharedServer

variable {f g : Files} {n : DbName} {s : SharedServer} {c : Client} {db : Database}

theorem client_keeps (name : String) : (s.client f name).2.databases = s.databases ∧
    (s.client f name).2.path = s.path := by
  rw [client]
  split
  · exact ⟨rfl, rfl⟩
  · dsimp only
    repeat' split
    all_goals exact ⟨rfl, rfl⟩

theorem createDatabase_keeps : (s.createDatabase f g n).2.databases = s.databases ∧
    (s.createDatabase f g n).2.path = s.path := by
  have hclient := client_keeps (f := f) (s := s) n.client
  rw [createDatabase, withClient]
  split <;> rename_i heq <;> rw [heq] at hclient
  · exact hclient
  · rw [createIn]
    repeat' split
    all_goals exact hclient

theorem client_of_known (h : s.clients.get? n.client = some c) :
    s.client f n.client = (.ok c, s) := by
  simp only [client, h]

theorem dropDatabase_eq_ok (h : s.Holds n db) (hdir : s.storage.tree.dirs db.path = true)
    (hg : g.failed = none) : ∃ c s', s.clients.get? n.client = some c ∧
      s.dropDatabase f g n = (.ok (), s') ∧ s'.databases = s.databases ∧ s'.path = s.path ∧
      s'.clients = s.clients.insert n.client { c with databases := c.databases.erase n.name } := by
  obtain ⟨c, hc, hdb⟩ := h
  obtain ⟨t, ht⟩ : ∃ t, s.storage.tree.removeDirAll db.path = .ok t := by
    simp [removeDirAll, hdir]
  refine ⟨c, SharedServer.withTree ⟨s.path, s.clients.insert n.client
    ⟨c.path, c.databases.erase n.name⟩, s.databases, s.storage⟩ t, hc, ?_, rfl, rfl, rfl⟩
  simp only [dropDatabase, withClient, client_of_known hc, dropIn, hdb, hg, ht]

end SharedServer

namespace SharedServer

variable {f g : Files} {n : DbName} {s : SharedServer} {c : Client} {db : Database}

theorem createDatabase_known (h : s.clients.get? n.client = some c) :
    (s.createDatabase f g n).2.clients = s.clients ∨
      ∃ db, db.path = (c.path.join n.name).place ∧ (s.createDatabase f g n).2.clients =
        s.clients.insert n.client ⟨c.path, c.databases.insert n.name db⟩ := by
  simp only [createDatabase, withClient, client_of_known h, createIn]
  repeat' split
  · exact .inl rfl
  · exact .inl rfl
  · exact .inl rfl
  · exact .inr ⟨_, rfl, rfl⟩

theorem databasePath_place (h : n.IsPlain) :
    (s.databasePath n).place = s.path ++ [n.client, n.name] := by
  rw [databasePath, place_join_plain h.2, place_join_plain h.1]
  simp [FilePath.place, FilePath.ofPlace]

end SharedServer

/-! ### Handles -/

namespace World

variable {w : World} {f g : Files} {i : Nat} {call : Call}

/-- While calls for one name do not overlap: what is not in the cache has no handle,
but for a drop that is half done. -/
structure Serialised (w : World) : Prop where
  plainCalls : ∀ call ∈ w.calls, call.name.IsPlain
  plainHandles : ∀ h ∈ w.handles, h.1.IsPlain
  alone : ∀ (i j : Nat) (a b : Call), w.calls[i]? = some a → w.calls[j]? = some b →
    a.stage ≠ .returned → b.stage ≠ .returned → a.name = b.name → i = j
  missed : ∀ call ∈ w.calls, call.stage = .check ∨ call.stage = .openIt ∨
    (∃ db, call.stage = .insert db) → w.server.databases.get? call.name.key = none
  held : ∀ h ∈ w.handles, w.server.databases.get? h.1.key = some h.2 ∨
    ∃ (j : Nat) (b : Call), w.calls[j]? = some b ∧ b.stage = .drop ∧ b.name = h.1
  agree : w.HandlesAgree

theorem Serialised.ne_of_ne (h : w.Serialised) {j : Nat} {b : Call} (ha : w.calls[i]? = some call)
    (hb : w.calls[j]? = some b) (hrun : call.stage ≠ .returned) (hrun' : b.stage ≠ .returned)
    (hij : j ≠ i) : b.name ≠ call.name :=
  fun hname => hij (h.alone j i b call hb ha hrun' hrun hname)

theorem Serialised.cached (h : w.Serialised) (ha : w.calls[i]? = some call)
    (hrun : call.stage ≠ .returned) (hdrop : call.stage ≠ .drop) {hd : DbName × Database}
    (hmem : hd ∈ w.handles) (hname : hd.1 = call.name) :
    w.server.databases.get? call.name.key = some hd.2 := by
  rcases h.held hd hmem with hc | ⟨j, b, hb, hstage, hb'⟩
  · rw [← hname]
    exact hc
  · obtain rfl := h.alone i j call b ha hb hrun (by simp [hstage]) (hname ▸ hb'.symm)
    rw [ha] at hb
    obtain rfl := Option.some.inj hb
    exact absurd hstage hdrop

variable {stage : Stage} {s : SharedServer}

variable {handles : List (DbName × Database)}

theorem Serialised.advance_of (h : w.Serialised) (ha : w.calls[i]? = some call)
    (hrun : call.stage ≠ .returned) (hplain : ∀ hd ∈ handles, hd.1.IsPlain)
    (hmissed : stage = .check ∨ stage = .openIt ∨ (∃ db, stage = .insert db) →
      s.databases.get? call.name.key = none)
    (hothers : ∀ k, k ≠ call.name.key → s.databases.get? k = w.server.databases.get? k)
    (hheld : ∀ hd ∈ handles, hd.1 = call.name → s.databases.get? hd.1.key = some hd.2 ∨
      stage = .drop)
    (hsub : ∀ hd ∈ handles, hd.1 ≠ call.name → hd ∈ w.handles)
    (hagree : ∀ hd ∈ handles, ∀ hd' ∈ handles, hd.1 = call.name → hd'.1 = call.name →
      hd.2 = hd'.2) :
    Serialised ⟨s, w.calls.set i ⟨call.name, stage⟩, handles⟩ := by
  have hi : i < w.calls.length := (List.getElem?_eq_some_iff.mp ha).1
  have hset : ∀ j b, (w.calls.set i ⟨call.name, stage⟩)[j]? = some b →
      j = i ∧ b = ⟨call.name, stage⟩ ∨ j ≠ i ∧ w.calls[j]? = some b := by
    intro j b hb
    by_cases hij : j = i
    · rw [hij, getElem?_set_self hi] at hb
      exact .inl ⟨hij, (Option.some.inj hb).symm⟩
    · rw [getElem?_set_ne (Ne.symm hij)] at hb
      exact .inr ⟨hij, hb⟩
  have hcall : call ∈ w.calls := mem_of_getElem? ha
  -- another call that is under way is for another name, with another key
  have hname_ne : ∀ j b, j ≠ i → w.calls[j]? = some b → b.stage ≠ .returned →
      b.name ≠ call.name := fun j b hij hb hrunb => h.ne_of_ne ha hb hrun hrunb hij
  have hkey : ∀ j b, j ≠ i → w.calls[j]? = some b → b.stage ≠ .returned →
      b.name.key ≠ call.name.key := fun j b hij hb hrunb hk =>
    hname_ne j b hij hb hrunb
      (DbName.key_inj (h.plainCalls b (mem_of_getElem? hb)) (h.plainCalls call hcall) hk)
  refine ⟨?_, hplain, ?_, ?_, ?_, ?_⟩
  · intro b hb
    rcases mem_or_eq_of_mem_set hb with hb | rfl
    · exact h.plainCalls b hb
    · exact h.plainCalls call hcall
  · intro j k a b hja hkb hra hrb hname
    rcases hset j a hja with ⟨hj, rfl⟩ | ⟨hj, hja⟩ <;>
      rcases hset k b hkb with ⟨hk, rfl⟩ | ⟨hk, hkb⟩
    · rw [hj, hk]
    · exact absurd hname (Ne.symm (hname_ne k b hk hkb hrb))
    · exact absurd hname (hname_ne j a hj hja hra)
    · exact h.alone j k a b hja hkb hra hrb hname
  · intro b hb hstage
    obtain ⟨j, hj⟩ := getElem?_of_mem hb
    rcases hset j b hj with ⟨-, rfl⟩ | ⟨hij, hj⟩
    · exact hmissed hstage
    · have hrunb : b.stage ≠ .returned := by
        rcases hstage with hs | hs | ⟨db, hs⟩ <;> simp [hs]
      show s.databases.get? b.name.key = none
      rw [hothers _ (hkey j b hij hj hrunb)]
      exact h.missed b (mem_of_getElem? hj) hstage
  · intro hd hmem
    by_cases hname : hd.1 = call.name
    · refine (hheld hd hmem hname).imp_right fun hstage => ?_
      exact ⟨i, _, getElem?_set_self hi, hstage, hname.symm⟩
    · have hne : hd.1.key ≠ call.name.key := fun hk =>
        hname (DbName.key_inj (hplain hd hmem) (h.plainCalls call hcall) hk)
      rcases h.held hd (hsub hd hmem hname) with hc | ⟨j, b, hb, hstage, hb'⟩
      · exact .inl ((hothers _ hne).trans hc)
      · have hij : j ≠ i := by
          rintro rfl
          rw [ha] at hb
          obtain rfl := Option.some.inj hb
          exact hname hb'.symm
        exact .inr ⟨j, b, (getElem?_set_ne (Ne.symm hij)).trans hb, hstage, hb'⟩
  · intro hd hmem hd' hmem' hname
    by_cases heq : hd.1 = call.name
    · exact hagree hd hmem hd' hmem' heq (hname ▸ heq)
    · exact h.agree hd (hsub hd hmem heq) hd' (hsub hd' hmem' (hname ▸ heq)) hname

theorem Serialised.advance_quiet (h : w.Serialised) (ha : w.calls[i]? = some call)
    (hrun : call.stage ≠ .returned) (hdrop : call.stage ≠ .drop)
    (hdbs : s.databases = w.server.databases)
    (hmissed : stage = .check ∨ stage = .openIt ∨ (∃ db, stage = .insert db) →
      w.server.databases.get? call.name.key = none) :
    Serialised ⟨s, w.calls.set i ⟨call.name, stage⟩, w.handles⟩ := by
  refine h.advance_of ha hrun h.plainHandles (hdbs ▸ hmissed) (fun _ _ => hdbs ▸ rfl) ?_
    (fun _ hmem _ => hmem) ?_
  · intro hd hmem hname
    rw [hdbs, hname]
    exact .inl (h.cached ha hrun hdrop hmem hname)
  · intro hd hmem hd' hmem' hn hn'
    exact h.agree hd hmem hd' hmem' (hn.trans hn'.symm)

theorem Serialised.advance (h : w.Serialised) (ha : w.calls[i]? = some call)
    (hserial : call.stage = .drop → (∃ db, w.server.Holds call.name db ∧
      w.server.storage.tree.dirs db.path = true) ∧ g.failed = none) :
    (w.advance f g i call).Serialised := by
  have hplain : call.name.IsPlain := h.plainCalls call (mem_of_getElem? ha)
  have hmissed := h.missed call (mem_of_getElem? ha)
  obtain ⟨n, stage⟩ := call
  cases stage with
  | lookUp =>
    rcases hdb : w.server.databases.get? n.key with _ | db <;>
      simp only [World.advance, hdb]
    · exact h.advance_quiet ha (by simp) (by simp) rfl fun _ => hdb
    · -- a handle of this name that was given out before is the cached one
      have hsame : ∀ hd ∈ w.handles, hd.1 = n → hd.2 = db := fun hd hmem hname =>
        Option.some.inj ((h.cached ha (by simp) (by simp) hmem hname).symm.trans hdb)
      refine h.advance_of ha (by simp) ?_ (by simp) (fun _ _ => rfl) ?_ ?_ ?_
      · exact forall_mem_cons.mpr ⟨hplain, h.plainHandles⟩
      · refine forall_mem_cons.mpr ⟨fun _ => .inl hdb, fun hd hmem hname => .inl ?_⟩
        rw [hname, hsame hd hmem hname]
        exact hdb
      · exact forall_mem_cons.mpr ⟨fun hne => absurd rfl hne, fun _ hmem _ => hmem⟩
      · have hall : ∀ hd ∈ (n, db) :: w.handles, hd.1 = n → hd.2 = db :=
          forall_mem_cons.mpr ⟨fun _ => rfl, hsame⟩
        intro hd hmem hd' hmem' hn hn'
        rw [hall hd hmem hn, hall hd' hmem' hn']
  | check =>
    simp only [World.advance]
    split <;> exact h.advance_quiet ha (by simp) (by simp) rfl fun _ => hmissed (.inl rfl)
  | openIt =>
    simp only [World.advance]
    split <;>
      exact h.advance_quiet ha (by simp) (by simp) rfl fun _ => hmissed (.inr (.inl rfl))
  | insert db =>
    have hnone := hmissed (.inr (.inr ⟨db, rfl⟩))
    -- the name is not cached, so it has no handle yet
    have hnew : ∀ hd ∈ w.handles, hd.1 ≠ n := fun hd hmem hname =>
      Option.some_ne_none _ ((h.cached ha (by simp) (by simp) hmem hname).symm.trans hnone)
    refine h.advance_of ha (by simp) ?_ (by simp) (fun k hk => Table.get?_insert_ne hk) ?_ ?_ ?_
    · exact forall_mem_cons.mpr ⟨hplain, h.plainHandles⟩
    · exact forall_mem_cons.mpr ⟨fun _ => .inl Table.get?_insert_self,
        fun hd hmem hname => absurd hname (hnew hd hmem)⟩
    · exact forall_mem_cons.mpr ⟨fun hne => absurd rfl hne, fun _ hmem _ => hmem⟩
    · have hall : ∀ hd ∈ (n, db) :: w.handles, hd.1 = n → hd.2 = db :=
        forall_mem_cons.mpr ⟨fun _ => rfl, fun hd hmem hname => absurd hname (hnew hd hmem)⟩
      intro hd hmem hd' hmem' hn hn'
      rw [hall hd hmem hn, hall hd' hmem' hn']
  | create =>
    exact h.advance_quiet ha (by simp) (by simp) SharedServer.createDatabase_keeps.1 (by simp)
  | uncache =>
    refine h.advance_of ha (by simp) h.plainHandles (by simp) (fun k hk => Table.get?_erase_ne hk)
      (fun _ _ _ => .inr rfl) (fun _ hmem _ => hmem) ?_
    intro hd hmem hd' hmem' hn hn'
    exact h.agree hd hmem hd' hmem' (hn.trans hn'.symm)
  | drop =>
    obtain ⟨⟨db, hholds, hdir⟩, hg⟩ := hserial rfl
    obtain ⟨c, s', -, heq, hdbs, -, -⟩ := SharedServer.dropDatabase_eq_ok (f := f) hholds hdir hg
    simp only [World.advance, heq]
    -- the handles of the name are forgotten
    have hfilter : ∀ hd ∈ w.handles.filter (fun hd => hd.1 ≠ n), hd ∈ w.handles ∧ hd.1 ≠ n := by
      simp
    refine h.advance_of ha (by simp)
      (fun hd hmem => h.plainHandles hd (hfilter hd hmem).1) (by simp)
      (fun _ _ => hdbs ▸ rfl) (fun hd hmem hname => absurd hname (hfilter hd hmem).2)
      (fun hd hmem _ => (hfilter hd hmem).1)
      fun hd hmem _ _ hname => absurd hname (hfilter hd hmem).2
  | returned => exact h

theorem getElem?_concat {α : Type} {l : List α} {a b : α} {j : Nat} (h : (l ++ [a])[j]? = some b) :
    l[j]? = some b ∨ j = l.length ∧ b = a := by
  rcases Nat.lt_trichotomy j l.length with hlt | rfl | hgt
  · rw [getElem?_append_left hlt] at h
    exact .inl h
  · rw [getElem?_concat_length] at h
    exact .inr ⟨rfl, (Option.some.inj h).symm⟩
  · rw [getElem?_eq_none (by simp; omega)] at h
    cases h

theorem Serialised.step (h : w.Serialised) {e : Event} (hserial : w.Serial e) :
    (w.step e).Serialised := by
  cases e with
  | advance i f g =>
    rw [World.step]
    rcases hcall : w.calls[i]? with _ | call
    · exact h
    · exact h.advance hcall (hserial call hcall)
  | start kind n =>
    obtain ⟨hc, hn, hnew⟩ := hserial
    have hfirst : kind.first ≠ .check ∧ kind.first ≠ .openIt ∧ ∀ db, kind.first ≠ .insert db := by
      cases kind <;> simp [CallKind.first]
    refine ⟨?_, h.plainHandles, ?_, ?_, ?_, h.agree⟩
    · intro b hb
      rcases mem_append.mp hb with hb | hb
      · exact h.plainCalls b hb
      · obtain rfl := mem_singleton.mp hb
        exact ⟨hc, hn⟩
    · intro j k a b hja hkb hra hrb hname
      rcases getElem?_concat hja with hja | ⟨rfl, rfl⟩ <;>
        rcases getElem?_concat hkb with hkb | ⟨rfl, rfl⟩
      · exact h.alone j k a b hja hkb hra hrb hname
      · exact absurd hname (hnew a (mem_of_getElem? hja) hra)
      · exact absurd hname.symm (hnew b (mem_of_getElem? hkb) hrb)
      · rfl
    · intro b hb hstage
      rcases mem_append.mp hb with hb | hb
      · exact h.missed b hb hstage
      · obtain rfl := mem_singleton.mp hb
        obtain ⟨hcheck, hopen, hinsert⟩ := hfirst
        rcases hstage with hs | hs | ⟨db, hs⟩
        · exact absurd hs hcheck
        · exact absurd hs hopen
        · exact absurd hs (hinsert db)
    · intro hd hmem
      refine (h.held hd hmem).imp_right ?_
      rintro ⟨j, b, hb, hstage, hname⟩
      refine ⟨j, b, ?_, hstage, hname⟩
      exact (List.getElem?_append_left (List.getElem?_eq_some_iff.mp hb).1).trans hb

/-- While a name is used for handles or for a database of the client's: where the
databases are, and that no name has both. -/
structure Separated (w : World) : Prop where
  clients : ∀ t c, w.server.clients.get? t = some c →
    c.path = .ofPlace (w.server.path ++ [t]) ∧
      ∀ d db, c.databases.get? d = some db → db.path = w.server.path ++ [t, d]
  handles : ∀ h ∈ w.handles, h.2.path = w.server.path ++ [h.1.client, h.1.name] ∧
    ∀ db, ¬ w.server.Holds h.1 db
  cached : ∀ k db, w.server.databases.get? k = some db → ∃ n, n.key = k ∧ (n, db) ∈ w.handles
  opening : ∀ call ∈ w.calls, call.stage = .lookUp ∨ call.stage = .check ∨ call.stage = .openIt ∨
    (∃ db, call.stage = .insert db) → ∀ db, ¬ w.server.Holds call.name db
  inserting : ∀ call ∈ w.calls, ∀ db, call.stage = .insert db →
    db.path = w.server.path ++ [call.name.client, call.name.name]
  managing : ∀ call ∈ w.calls, call.stage = .create ∨ call.stage = .uncache ∨ call.stage = .drop →
    (w.server.clients.get? call.name.client).isSome ∧ ∀ h ∈ w.handles, h.1 ≠ call.name

theorem Separated.advance_of (h : w.Separated) (hs : w.Serialised) (ha : w.calls[i]? = some call)
    (hrun : call.stage ≠ .returned) (hpath : s.path = w.server.path)
    (hclients : ∀ t c, s.clients.get? t = some c → c.path = .ofPlace (w.server.path ++ [t]) ∧
      ∀ d db, c.databases.get? d = some db → db.path = w.server.path ++ [t, d])
    (hholds : ∀ m db, m ≠ call.name → s.Holds m db → w.server.Holds m db)
    (hknown : ∀ t, (w.server.clients.get? t).isSome → (s.clients.get? t).isSome)
    (hothers : ∀ hd ∈ handles, hd.1 ≠ call.name → hd ∈ w.handles)
    (hown : ∀ hd ∈ handles, hd.1 = call.name →
      hd.2.path = w.server.path ++ [call.name.client, call.name.name] ∧
      ∀ db, ¬ s.Holds call.name db)
    (hcached : ∀ k db, s.databases.get? k = some db → ∃ n, n.key = k ∧ (n, db) ∈ handles)
    (hopening : stage = .lookUp ∨ stage = .check ∨ stage = .openIt ∨ (∃ db, stage = .insert db) →
      ∀ db, ¬ s.Holds call.name db)
    (hinserting : ∀ db, stage = .insert db →
      db.path = w.server.path ++ [call.name.client, call.name.name])
    (hmanaging : stage = .create ∨ stage = .uncache ∨ stage = .drop →
      (s.clients.get? call.name.client).isSome ∧ ∀ hd ∈ handles, hd.1 ≠ call.name) :
    Separated ⟨s, w.calls.set i ⟨call.name, stage⟩, handles⟩ := by
  have hset : ∀ b ∈ w.calls.set i ⟨call.name, stage⟩, b = ⟨call.name, stage⟩ ∨
      b ∈ w.calls ∧ (b.stage ≠ .returned → b.name ≠ call.name) := by
    intro b hb
    obtain ⟨j, hj⟩ := getElem?_of_mem hb
    by_cases hij : j = i
    · rw [hij, List.getElem?_set_self (List.getElem?_eq_some_iff.mp ha).1] at hj
      exact .inl (Option.some.inj hj).symm
    · rw [getElem?_set_ne (Ne.symm hij)] at hj
      exact .inr ⟨mem_of_getElem? hj, fun hrunb => hs.ne_of_ne ha hj hrun hrunb hij⟩
  refine ⟨?_, ?_, hcached, ?_, ?_, ?_⟩
  · intro t c hc
    rw [hpath]
    exact hclients t c hc
  · intro hd hmem
    rw [hpath]
    by_cases hname : hd.1 = call.name
    · rw [hname]
      exact hown hd hmem hname
    · obtain ⟨hdir, hnot⟩ := h.handles hd (hothers hd hmem hname)
      exact ⟨hdir, fun db hdb => hnot db (hholds _ db hname hdb)⟩
  · intro b hb hstage db hdb
    rcases hset b hb with rfl | ⟨hb, hne⟩
    · exact hopening hstage db hdb
    · have hrunb : b.stage ≠ .returned := by
        rcases hstage with hst | hst | hst | ⟨_, hst⟩ <;> simp [hst]
      exact h.opening b hb hstage db (hholds _ db (hne hrunb) hdb)
  · intro b hb db hstage
    rw [hpath]
    rcases hset b hb with rfl | ⟨hb, -⟩
    · exact hinserting db hstage
    · exact h.inserting b hb db hstage
  · intro b hb hstage
    rcases hset b hb with rfl | ⟨hb, hne⟩
    · exact hmanaging hstage
    · have hrunb : b.stage ≠ .returned := by
        rcases hstage with hst | hst | hst <;> simp [hst]
      obtain ⟨hsome, hnone⟩ := h.managing b hb hstage
      refine ⟨hknown _ hsome, fun hd hmem hname => ?_⟩
      exact hnone hd (hothers hd hmem (hname ▸ hne hrunb)) hname

theorem Separated.advance_quiet (h : w.Separated) (hs : w.Serialised) (ha : w.calls[i]? = some call)
    {k : Storage} (hstage : call.stage = .lookUp ∨ call.stage = .check ∨ call.stage = .openIt)
    (hinserting : ∀ db, stage = .insert db →
      db.path = w.server.path ++ [call.name.client, call.name.name])
    (hmanaging : stage ≠ .create ∧ stage ≠ .uncache ∧ stage ≠ .drop) :
    Separated ⟨{ w.server with storage := k }, w.calls.set i ⟨call.name, stage⟩, w.handles⟩ := by
  have hrun : call.stage ≠ .returned := by
    rcases hstage with hst | hst | hst <;> simp [hst]
  have hnot : ∀ db, ¬ w.server.Holds call.name db :=
    h.opening call (mem_of_getElem? ha) (by tauto)
  refine h.advance_of hs ha hrun rfl h.clients (fun _ _ _ hm => hm) (fun _ ht => ht)
    (fun _ hmem _ => hmem) ?_ h.cached (fun _ => hnot) hinserting (by tauto)
  intro hd hmem hname
  obtain ⟨hdir, -⟩ := h.handles hd hmem
  exact ⟨hname ▸ hdir, hnot⟩

variable {databases : Table String Database}

theorem Separated.advance_give (h : w.Separated) (hs : w.Serialised)
    (ha : w.calls[i]? = some call) {db : Database} (hrun : call.stage ≠ .returned)
    (hnot : ∀ db, ¬ w.server.Holds call.name db)
    (hdir : db.path = w.server.path ++ [call.name.client, call.name.name])
    (hcached : ∀ k db', databases.get? k = some db' → k = call.name.key ∧ db' = db ∨
      w.server.databases.get? k = some db') :
    Separated ⟨{ w.server with databases := databases }, w.calls.set i ⟨call.name, .returned⟩,
      (call.name, db) :: w.handles⟩ := by
  refine h.advance_of hs ha hrun rfl h.clients (fun _ _ _ hm => hm) (fun _ ht => ht) ?_ ?_ ?_
    (by simp) (by simp) (by simp)
  · exact forall_mem_cons.mpr ⟨fun hne => absurd rfl hne, fun _ hmem _ => hmem⟩
  · refine forall_mem_cons.mpr ⟨fun _ => ⟨hdir, hnot⟩, fun hd hmem hname => ⟨?_, hnot⟩⟩
    rw [← hname]
    exact (h.handles hd hmem).1
  · intro k db' hk
    rcases hcached k db' hk with ⟨rfl, rfl⟩ | hk
    · exact ⟨call.name, rfl, mem_cons_self⟩
    · obtain ⟨m, hm, hmem⟩ := h.cached k db' hk
      exact ⟨m, hm, mem_cons_of_mem _ hmem⟩

theorem Separated.advance_manage (h : w.Separated) (hs : w.Serialised)
    (ha : w.calls[i]? = some call) (hstage : call.stage = .create ∨ call.stage = .drop)
    {c : Client} (hpath : s.path = w.server.path) (hdbs : s.databases = w.server.databases)
    (hc : w.server.clients.get? call.name.client = some c)
    (hself : s.clients.get? call.name.client = some ⟨c.path, databases⟩)
    (hget : ∀ t, t ≠ call.name.client → s.clients.get? t = w.server.clients.get? t)
    (hsame : ∀ d db, databases.get? d = some db → d = call.name.name ∧
      db.path = w.server.path ++ [call.name.client, call.name.name] ∨
      c.databases.get? d = some db) :
    Separated ⟨s, w.calls.set i ⟨call.name, .returned⟩, w.handles⟩ := by
  have hrun : call.stage ≠ .returned := by
    rcases hstage with hst | hst <;> simp [hst]
  obtain ⟨-, hnone⟩ := h.managing call (mem_of_getElem? ha) (by tauto)
  obtain ⟨hcpath, hcdbs⟩ := h.clients _ c hc
  refine h.advance_of hs ha hrun hpath ?_ ?_ ?_ (fun _ hmem _ => hmem)
    (fun hd hmem hname => absurd hname (hnone hd hmem)) (hdbs ▸ h.cached) (by simp) (by simp)
    (by simp)
  · intro t c' hc'
    by_cases ht : t = call.name.client
    · subst ht
      rw [hself] at hc'
      obtain rfl := Option.some.inj hc'
      refine ⟨hcpath, fun d db hdb => ?_⟩
      rcases hsame d db hdb with ⟨rfl, hdir⟩ | hold
      · exact hdir
      · exact hcdbs d db hold
    · rw [hget t ht] at hc'
      exact h.clients t c' hc'
  · rintro m db hne ⟨c', hc', hdb⟩
    by_cases ht : m.client = call.name.client
    · rw [ht, hself] at hc'
      obtain rfl := Option.some.inj hc'
      rcases hsame m.name db hdb with ⟨hname, -⟩ | hold
      · cases m
        simp_all
      · exact ⟨c, ht ▸ hc, hold⟩
    · rw [hget _ ht] at hc'
      exact ⟨c', hc', hdb⟩
  · intro t ht
    by_cases heq : t = call.name.client
    · rw [heq, hself]
      rfl
    · rw [hget t heq]
      exact ht

theorem Separated.advance (h : w.Separated) (hs : w.Serialised) (ha : w.calls[i]? = some call)
    (hserial : call.stage = .drop → (∃ db, w.server.Holds call.name db ∧
      w.server.storage.tree.dirs db.path = true) ∧ g.failed = none) :
    (w.advance f g i call).Separated := by
  have hplain : call.name.IsPlain := hs.plainCalls call (mem_of_getElem? ha)
  have hopening := h.opening call (mem_of_getElem? ha)
  have hinserting := h.inserting call (mem_of_getElem? ha)
  have hmanaging := h.managing call (mem_of_getElem? ha)
  obtain ⟨n, stage⟩ := call
  cases stage with
  | lookUp =>
    rcases hdb : w.server.databases.get? n.key with _ | db <;> simp only [World.advance, hdb]
    · exact h.advance_quiet hs ha (.inl rfl) (by simp) (by simp)
    · obtain ⟨m, hm, hmem⟩ := h.cached n.key db hdb
      obtain rfl := DbName.key_inj (hs.plainHandles _ hmem) hplain hm
      exact h.advance_give hs ha (by simp) (hopening (.inl rfl)) (h.handles _ hmem).1
        fun _ _ hk => .inr hk
  | check =>
    simp only [World.advance]
    split
    · exact h.advance_quiet hs ha (.inr (.inl rfl)) (by simp) (by simp)
    · exact h.advance_quiet hs ha (.inr (.inl rfl)) (by simp) (by simp)
  | openIt =>
    simp only [World.advance]
    split
    · exact h.advance_quiet hs ha (.inr (.inr rfl)) (by simp) (by simp)
    · refine h.advance_quiet hs ha (.inr (.inr rfl)) ?_ (by simp)
      intro db hdb
      rw [← Stage.insert.inj hdb]
      exact SharedServer.databasePath_place hplain
  | insert db =>
    refine h.advance_give hs ha (by simp) (hopening (.inr (.inr (.inr ⟨db, rfl⟩))))
      (hinserting db rfl) fun k db' hk => ?_
    by_cases hkey : k = n.key
    · rw [hkey, Table.get?_insert_self] at hk
      exact .inl ⟨hkey, (Option.some.inj hk).symm⟩
    · exact .inr ((Table.get?_insert_ne hkey).symm.trans hk)
  | create =>
    obtain ⟨hsome, -⟩ := hmanaging (.inl rfl)
    obtain ⟨c, hc⟩ := Option.isSome_iff_exists.mp hsome
    obtain ⟨hcpath, -⟩ := h.clients _ c hc
    obtain ⟨hdbs, hpath⟩ :=
      SharedServer.createDatabase_keeps
    rcases SharedServer.createDatabase_known hc with
      hclients | ⟨db, hdb, hclients⟩
    · exact h.advance_manage hs ha (.inl rfl) hpath hdbs hc (hclients ▸ hc)
        (fun _ _ => by rw [hclients]) fun _ _ hd => .inr hd
    · refine h.advance_manage hs ha (.inl rfl) hpath hdbs hc
        (by rw [hclients, Table.get?_insert_self])
        (fun t ht => by rw [hclients, Table.get?_insert_ne ht]) fun d db' hd => ?_
      by_cases hname : d = n.name
      · rw [hname, Table.get?_insert_self] at hd
        obtain rfl := Option.some.inj hd
        refine .inl ⟨hname, ?_⟩
        rw [hdb, hcpath, place_join_plain hplain.2]
        simp [FilePath.place, FilePath.ofPlace]
      · exact .inr ((Table.get?_insert_ne hname).symm.trans hd)
  | uncache =>
    obtain ⟨hsome, hnone⟩ := hmanaging (.inr (.inl rfl))
    refine h.advance_of hs ha (by simp) rfl h.clients (fun _ _ _ hm => hm) (fun _ ht => ht)
      (fun _ hmem _ => hmem) (fun hd hmem hname => absurd hname (hnone hd hmem)) ?_ (by simp)
      (by simp) fun _ => ⟨hsome, hnone⟩
    intro k db hk
    refine h.cached k db ?_
    by_cases hkey : k = n.key
    · rw [hkey, Table.get?_erase_self] at hk
      cases hk
    · exact (Table.get?_erase_ne hkey).symm.trans hk
  | drop =>
    obtain ⟨hsome, hnone⟩ := hmanaging (.inr (.inr rfl))
    obtain ⟨⟨db, hholds, hdir⟩, hg⟩ := hserial rfl
    obtain ⟨c, s', hc, heq, hdbs, hpath, hclients⟩ :=
      SharedServer.dropDatabase_eq_ok (f := f) hholds hdir hg
    have hfilter : w.handles.filter (fun hd => hd.1 ≠ n) = w.handles :=
      filter_eq_self.mpr (by simpa using fun m db hmem => hnone (m, db) hmem)
    simp only [World.advance, heq]
    rw [hfilter]
    refine h.advance_manage hs ha (.inr rfl) hpath hdbs hc
      (by rw [hclients, Table.get?_insert_self])
      (fun t ht => by rw [hclients, Table.get?_insert_ne ht]) fun d db' hd => .inr ?_
    by_cases hname : d = n.name
    · rw [hname, Table.get?_erase_self] at hd
      cases hd
    · exact (Table.get?_erase_ne hname).symm.trans hd
  | returned => exact h

theorem Separated.step (h : w.Separated) (hs : w.Serialised) {e : Event} (hserial : w.Serial e)
    (hseparate : w.Separate e) : (w.step e).Separated := by
  cases e with
  | advance i f g =>
    rw [World.step]
    rcases hcall : w.calls[i]? with _ | call
    · exact h
    · exact h.advance hs hcall (hserial call hcall)
  | start kind n =>
    have hmem : ∀ call ∈ w.calls ++ [⟨n, kind.first⟩], call ∈ w.calls ∨ call = ⟨n, kind.first⟩ := by
      simp
    refine ⟨h.clients, h.handles, h.cached, ?_, ?_, ?_⟩
    · intro call hcall hstage
      rcases hmem call hcall with hcall | rfl
      · exact h.opening call hcall hstage
      · cases kind with
        | database => exact hseparate
        | createDatabase | dropDatabase => simp [CallKind.first] at hstage
    · intro call hcall db hstage
      rcases hmem call hcall with hcall | rfl
      · exact h.inserting call hcall db hstage
      · cases kind <;> simp [CallKind.first] at hstage
    · intro call hcall hstage
      rcases hmem call hcall with hcall | rfl
      · exact h.managing call hcall hstage
      · cases kind with
        | database => simp [CallKind.first] at hstage
        | createDatabase | dropDatabase => exact hseparate

end World

end Tenancy

end GrumpyDB
