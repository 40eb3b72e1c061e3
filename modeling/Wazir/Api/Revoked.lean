import Wazir.Api.Revocation

/-! The invariant of the credentials: what was exchanged or revoked is in no record that can be
accepted, neither in memory nor where a restart would find it. -/

namespace Wazir.Api

open Wazir.Async

variable {e : AuthEntry}

section Invariant

variable (secrets : Secrets)

/-- The draws with their threads. -/
def drawList (h : AuthHist) : List (ℕ × ℕ × String) :=
  h.entries.filterMap fun e => (drawOf e).map fun p => (p.1, e.thread, p.2)

/-- The `n`-th credential has been in memory. -/
def Seen (n : ℕ) (h : AuthHist) : Prop :=
  (∃ e ∈ h.entries, ∃ r ∈ e.before.memory, OfDraw secrets n r) ∨
    ∃ r ∈ h.shared.memory, OfDraw secrets n r

def Installed (n : ℕ) (h : AuthHist) : Prop :=
  ∃ e ∈ h.entries, ∃ r, installed e = some r ∧ OfDraw secrets n r

/-- Thread `i` has exchanged the `m`-th credential for the one it has installed. -/
def Spent (i m : ℕ) (h : AuthHist) : Prop :=
  (∃ e ∈ h.entries, e.thread = i ∧ ∃ r, exchanged secrets e = some r ∧ OfDraw secrets m r) ∧
    ∃ e ∈ h.entries, e.thread = i ∧ (installed e).isSome = true

/-- A record that a command found or left somewhere. -/
def Kept (h : AuthHist) (r : MobileDeviceRecord) : Prop :=
  r ∈ h.shared.memory ∨ r ∈ h.shared.stored

structure AuthInv (h : AuthHist) : Prop where
  same : ∀ e ∈ h.entries, ∀ e' ∈ h.entries, e.thread = e'.thread → e.call = e'.call
  draws : (drawList h).map Prod.fst = List.range h.shared.drawn
  single : ∀ e ∈ h.entries, ∀ e' ∈ h.entries, ∀ p p', e.thread = e'.thread → drawOf e = some p →
    drawOf e' = some p' → p = p'
  first : h.Always fun h e => drawOf e ≠ none → ∀ x ∈ h.entries, x.thread ≠ e.thread
  grown : ∀ e ∈ h.entries, e.before.drawn ≤ e.after.drawn ∧ e.after.drawn ≤ h.shared.drawn
  known : ∀ r, Kept h r → ∃ n, ∃ e ∈ h.entries, drawOf e = some (n, r.deviceId) ∧
    OfDraw secrets n r
  seen : ∀ n, Seen secrets n h → n < h.shared.drawn
  installs : ∀ e ∈ h.entries, ∀ r, installed e = some r → r.revoked = false ∧
    ∃ n, ∃ e' ∈ h.entries, e'.thread = e.thread ∧ drawOf e' = some (n, r.deviceId) ∧
      OfDraw secrets n r
  exchanges : ∀ e ∈ h.entries, ∀ r, exchanged secrets e = some r → r ∈ e.before.memory ∧
    (∃ n, drawOf e = some (n, r.deviceId)) ∧
      (∃ m, ∃ e' ∈ h.entries, drawOf e' = some (m, r.deviceId) ∧ OfDraw secrets m r) ∧
        ∃ refreshToken ttlMs, e.call.call = .rotate refreshToken ttlMs ∧
          r.refreshTokenHash = secrets.sha256 refreshToken
  fresh : h.Always fun h e => ∀ r n, installed e = some r → OfDraw secrets n r → ¬ Seen secrets n h
  spent : ∀ i m, Spent secrets i m h → ∀ r, Kept h r → r.revoked = false → ¬ OfDraw secrets m r
  once : ∀ i j m, Spent secrets i m h → Spent secrets j m h → i = j
  has : ∀ e ∈ h.entries, ∀ r, installed e = some r → r.deviceId ≠ "" →
    (∃ x ∈ h.shared.memory, x.deviceId = r.deviceId) ∧
      ∃ x ∈ h.shared.stored, x.deviceId = r.deviceId
  revoked : ∀ k ∈ h.entries, ∀ r, returnsRevocation k = some r.deviceId →
    r ∈ h.shared.memory ∨ r ∈ h.shared.stored ∧ r.deviceId ≠ "" → r.revoked = false →
      ∀ n, OfDraw secrets n r → Installed secrets n h → k.before.drawn ≤ n

/-- What a command must know. -/
structure AuthAllowed (h : AuthHist) (e : AuthEntry) : Prop where
  same : ∀ x ∈ h.entries, x.thread = e.thread → x.call = e.call
  named : ∀ refreshToken ttlMs, e.op = .rotate refreshToken ttlMs →
    e.call.call = .rotate refreshToken ttlMs
  draws : drawOf e ≠ none → ∀ x ∈ h.entries, x.thread ≠ e.thread
  puts : ∀ r, e.op = .put r → (∃ n, ∃ x ∈ h.entries, drawOf x = some (n, r.deviceId) ∧
    OfDraw secrets n r) ∧ (r.revoked = false → ∀ n, OfDraw secrets n r →
      ¬ Seen secrets n h ∧ ¬ Installed secrets n h)
  installs : ∀ r, installed e = some r → r.revoked = false ∧
    (∃ x ∈ h.shared.stored, x.deviceId = r.deviceId) ∧
    ∃ n, OfDraw secrets n r ∧ ¬ Seen secrets n h ∧
      (∃ x ∈ h.entries, x.thread = e.thread ∧ drawOf x = some (n, r.deviceId)) ∧
      ∀ k ∈ h.entries, returnsRevocation k = some r.deviceId → k.before.drawn ≤ n
  exchanges : ∀ r, installed e = some r → ∀ x ∈ h.entries, x.thread = e.thread → ∀ r' m,
    exchanged secrets x = some r' → OfDraw secrets m r' →
      (∀ y ∈ h.shared.stored, y.revoked = false → ¬ OfDraw secrets m y) ∧
        ∀ j, ¬ Spent secrets j m h
  returns : ∀ r, returnsRevocation e = some r.deviceId →
    r ∈ e.after.memory ∨ r ∈ e.after.stored ∧ r.deviceId ≠ "" → r.revoked = false →
      ∀ n, OfDraw secrets n r → ¬ Installed secrets n h

variable {secrets} {h : AuthHist} {i : ℕ} {c : AuthRequest} {op : AuthOp} {inp : AuthInput}
  {r : AuthRes op} {s' : AuthState}

theorem authEntries_ran : (h.ran i c op inp r s').entries =
    h.entries ++ [⟨i, c, op, inp, r, h.shared, s'⟩] := Hist.entries_push_ran ..

theorem mem_ran (he : e ∈ (h.ran i c op inp r s').entries) :
    e ∈ h.entries ∨ e = ⟨i, c, op, inp, r, h.shared, s'⟩ := by
  rw [authEntries_ran] at he
  exact (List.mem_append.mp he).imp_right List.mem_singleton.mp

theorem mem_ran_of (he : e ∈ h.entries) :
    e ∈ (h.ran i c op inp r s').entries := by
  rw [authEntries_ran]
  exact List.mem_append_left _ he

theorem last_mem_ran : (⟨i, c, op, inp, r, h.shared, s'⟩ : AuthEntry) ∈
    (h.ran i c op inp r s').entries := by
  rw [authEntries_ran]
  exact List.mem_append_right _ (List.mem_singleton_self _)

theorem Seen.mono {n : ℕ} (hs : Seen secrets n h) : Seen secrets n (h.ran i c op inp r s') := by
  rcases hs with ⟨e, he, hr⟩ | hr
  · exact .inl ⟨e, mem_ran_of he, hr⟩
  · exact .inl ⟨_, last_mem_ran, hr⟩

theorem AuthInv.draw_lt (inv : AuthInv secrets h) (he : e ∈ h.entries) {n : ℕ} {d : String}
    (hd : drawOf e = some (n, d)) : n < h.shared.drawn := by
  have hmem : (n, e.thread, d) ∈ drawList h := List.mem_filterMap.mpr ⟨e, he, by rw [hd]; rfl⟩
  have := List.mem_map_of_mem (f := Prod.fst) hmem
  rwa [inv.draws, List.mem_range] at this

/-- A number is drawn by one thread for one device. -/
theorem AuthInv.owner (inv : AuthInv secrets h) {e e' : AuthEntry} (he : e ∈ h.entries)
    (he' : e' ∈ h.entries) {n : ℕ} {d d' : String} (hd : drawOf e = some (n, d))
    (hd' : drawOf e' = some (n, d')) : e.thread = e'.thread ∧ d = d' := by
  have hmem : (n, e.thread, d) ∈ drawList h := List.mem_filterMap.mpr ⟨e, he, by rw [hd]; rfl⟩
  have hmem' : (n, e'.thread, d') ∈ drawList h := List.mem_filterMap.mpr ⟨e', he', by rw [hd']; rfl⟩
  have hnodup : ((drawList h).map Prod.fst).Nodup := by
    rw [inv.draws]
    exact List.nodup_range
  have := List.inj_on_of_nodup_map hnodup hmem hmem' rfl
  simpa using this

/-- A record's device is that of its draw. -/
theorem AuthInv.device (inv : AuthInv secrets h) (hs : secrets.Sound) {x : MobileDeviceRecord}
    (hx : Kept h x) {n : ℕ} (hn : OfDraw secrets n x) (he : e ∈ h.entries) {d : String}
    (hd : drawOf e = some (n, d)) : x.deviceId = d := by
  obtain ⟨n', e', he', hd', hn'⟩ := inv.known x hx
  cases hn'.unique hs hn
  exact (inv.owner he' he hd' hd).2

/-! One command. -/

section Ran

variable (inv : AuthInv secrets h) (hmoves : Moves secrets ⟨i, c, op, inp, r, h.shared, s'⟩)
  (hallowed : AuthAllowed secrets h ⟨i, c, op, inp, r, h.shared, s'⟩)

include hallowed in
theorem same_ran (inv : AuthInv secrets h) : ∀ e ∈ (h.ran i c op inp r s').entries,
    ∀ e' ∈ (h.ran i c op inp r s').entries, e.thread = e'.thread → e.call = e'.call := by
  intro e he e' he' hthread
  rcases mem_ran he with he | rfl <;> rcases mem_ran he' with he' | rfl
  · exact inv.same e he e' he' hthread
  · exact hallowed.same e he hthread
  · exact (hallowed.same e' he' hthread.symm).symm
  · rfl

include inv hmoves in
theorem draws_ran : (drawList (h.ran i c op inp r s')).map Prod.fst = List.range s'.drawn := by
  rw [drawList, authEntries_ran, List.filterMap_append, ← drawList, List.map_append, inv.draws]
  cases hd : drawOf ⟨i, c, op, inp, r, h.shared, s'⟩ with
  | none =>
    have := hmoves.drawsNot hd
    simp only at this
    simp [hd, this]
  | some p =>
    obtain ⟨hn, hs⟩ := hmoves.draws p.1 p.2 hd
    simp only at hn hs
    simp [hd, hn, hs, List.range_succ]

include hallowed in
theorem single_ran (inv : AuthInv secrets h) : ∀ e ∈ (h.ran i c op inp r s').entries,
    ∀ e' ∈ (h.ran i c op inp r s').entries, ∀ p p', e.thread = e'.thread → drawOf e = some p →
      drawOf e' = some p' → p = p' := by
  intro e he e' he' p p' hthread hp hp'
  rcases mem_ran he with he | rfl <;> rcases mem_ran he' with he' | rfl
  · exact inv.single e he e' he' p p' hthread hp hp'
  · exact absurd hthread (hallowed.draws (by simp [hp']) e he)
  · exact absurd hthread.symm (hallowed.draws (by simp [hp]) e' he')
  · exact Option.some.inj (hp.symm.trans hp')

include hmoves in
theorem drawn_le : h.shared.drawn ≤ s'.drawn := by
  cases hd : drawOf ⟨i, c, op, inp, r, h.shared, s'⟩ with
  | none => exact (hmoves.drawsNot hd).ge
  | some p =>
    obtain ⟨hn, hs⟩ := hmoves.draws p.1 p.2 hd
    simp only at hn hs
    omega

include inv hmoves in
theorem grown_ran : ∀ e ∈ (h.ran i c op inp r s').entries,
    e.before.drawn ≤ e.after.drawn ∧ e.after.drawn ≤ s'.drawn := by
  intro e he
  rcases mem_ran he with he | rfl
  · obtain ⟨hfirst, hsecond⟩ := inv.grown e he
    exact ⟨hfirst, hsecond.trans (drawn_le hmoves)⟩
  · exact ⟨drawn_le hmoves, le_rfl⟩

include inv hmoves hallowed in
theorem known_ran : ∀ x, Kept (h.ran i c op inp r s') x → ∃ n,
    ∃ e ∈ (h.ran i c op inp r s').entries, drawOf e = some (n, x.deviceId) ∧
      OfDraw secrets n x := by
  have lift : ∀ {x}, (∃ n, ∃ e ∈ h.entries, drawOf e = some (n, x.deviceId) ∧ OfDraw secrets n x) →
      ∃ n, ∃ e ∈ (h.ran i c op inp r s').entries, drawOf e = some (n, x.deviceId) ∧
        OfDraw secrets n x := by
    rintro x ⟨n, e, he, hrest⟩
    exact ⟨n, e, mem_ran_of he, hrest⟩
  rintro x (hx | hx)
  · rcases hmoves.memory x hx with ⟨x₀, hx₀, hcopy⟩ | hx
    · obtain ⟨n, e, he, hd, hn⟩ := inv.known x₀ (.inl hx₀)
      exact ⟨n, e, mem_ran_of he, by rw [hcopy.device]; exact hd, hcopy.draw_iff.mpr hn⟩
    · obtain ⟨-, -, n, hn, -, ⟨e, he, -, hd⟩, -⟩ := hallowed.installs x hx
      exact ⟨n, e, mem_ran_of he, hd, hn⟩
  · rcases hmoves.stored x hx with hx | hx
    · exact lift (inv.known x (.inr hx))
    · exact lift (hallowed.puts x hx).1

include hmoves in
theorem seen_ran : ∀ n, Seen secrets n (h.ran i c op inp r s') → Seen secrets n h ∨
    ∃ rec, installed ⟨i, c, op, inp, r, h.shared, s'⟩ = some rec ∧ OfDraw secrets n rec := by
  rintro n (⟨e, he, x, hx, hn⟩ | ⟨x, hx, hn⟩)
  · rcases mem_ran he with he | rfl
    · exact .inl (.inl ⟨e, he, x, hx, hn⟩)
    · exact .inl (.inr ⟨x, hx, hn⟩)
  · rcases hmoves.memory x hx with ⟨x₀, hx₀, hcopy⟩ | hx
    · exact .inl (.inr ⟨x₀, hx₀, hcopy.draw hn⟩)
    · exact .inr ⟨x, hx, hn⟩

include inv hmoves hallowed in
theorem seenLt_ran (hs : secrets.Sound) : ∀ n, Seen secrets n (h.ran i c op inp r s') →
    n < s'.drawn := by
  intro n hn
  refine lt_of_lt_of_le ?_ (drawn_le hmoves)
  rcases seen_ran hmoves n hn with hn | ⟨rec, hrec, hn⟩
  · exact inv.seen n hn
  · obtain ⟨-, -, n', hn', -, ⟨e, he, -, hd⟩, -⟩ := hallowed.installs rec hrec
    cases hn'.unique hs hn
    exact inv.draw_lt he hd

include hallowed in
theorem installs_ran (inv : AuthInv secrets h) : ∀ e ∈ (h.ran i c op inp r s').entries,
    ∀ x, installed e = some x →
      x.revoked = false ∧ ∃ n, ∃ e' ∈ (h.ran i c op inp r s').entries, e'.thread = e.thread ∧
        drawOf e' = some (n, x.deviceId) ∧ OfDraw secrets n x := by
  intro e he x hx
  rcases mem_ran he with he | rfl
  · obtain ⟨hlive, n, e', he', hrest⟩ := inv.installs e he x hx
    exact ⟨hlive, n, e', mem_ran_of he', hrest⟩
  · obtain ⟨hlive, -, n, hn, -, ⟨e', he', hthread, hd⟩, -⟩ := hallowed.installs x hx
    exact ⟨hlive, n, e', mem_ran_of he', hthread, hd, hn⟩

include inv hallowed in
theorem exchanges_ran (hx : authExec secrets op inp h.shared = some (r, s')) :
    ∀ e ∈ (h.ran i c op inp r s').entries, ∀ x, exchanged secrets e = some x →
      x ∈ e.before.memory ∧ (∃ n, drawOf e = some (n, x.deviceId)) ∧
        (∃ m, ∃ e' ∈ (h.ran i c op inp r s').entries, drawOf e' = some (m, x.deviceId) ∧
          OfDraw secrets m x) ∧
          ∃ refreshToken ttlMs, e.call.call = .rotate refreshToken ttlMs ∧
            x.refreshTokenHash = secrets.sha256 refreshToken := by
  intro e he x hexch
  rcases mem_ran he with he | rfl
  · obtain ⟨hmem, hdraw, ⟨m, e', he', hrest⟩, htoken⟩ := inv.exchanges e he x hexch
    exact ⟨hmem, hdraw, ⟨m, e', mem_ran_of he', hrest⟩, htoken⟩
  · obtain ⟨refreshToken, ttlMs, rfl, hmatched, hdraw⟩ := authExec_exchanged hx hexch
    obtain ⟨hmem, -, htoken⟩ := matchedRefresh_mem hmatched
    obtain ⟨m, e', he', hrest⟩ := inv.known x (.inl hmem)
    exact ⟨hmem, ⟨_, hdraw⟩, ⟨m, e', mem_ran_of he', hrest⟩, refreshToken, ttlMs,
      hallowed.named _ _ rfl, htoken⟩

include hmoves hallowed in
theorem has_ran (inv : AuthInv secrets h) : ∀ e ∈ (h.ran i c op inp r s').entries,
    ∀ x, installed e = some x → x.deviceId ≠ "" → (∃ y ∈ s'.memory, y.deviceId = x.deviceId) ∧
      ∃ y ∈ s'.stored, y.deviceId = x.deviceId := by
  intro e he x hx hne
  rcases mem_ran he with he | rfl
  · obtain ⟨hm, hst⟩ := inv.has e he x hx hne
    exact ⟨hmoves.keeps _ hm, hmoves.keepsStored _ hst⟩
  · exact ⟨hmoves.has x hx, hmoves.keepsStored _ (hallowed.installs x hx).2.1⟩

include hallowed in
/-- What is spent after the command was so before, or is what the command spends. -/
theorem spent_cases {j m : ℕ} (hx : authExec secrets op inp h.shared = some (r, s'))
    (hsp : Spent secrets j m (h.ran i c op inp r s')) :
    Spent secrets j m h ∨ j = i ∧ ∃ rec, installed ⟨i, c, op, inp, r, h.shared, s'⟩ = some rec ∧
      ∃ e ∈ h.entries, e.thread = i ∧ ∃ x, exchanged secrets e = some x ∧ OfDraw secrets m x := by
  obtain ⟨⟨e, he, hej, x, hexch, hm⟩, e', he', hej', hinst⟩ := hsp
  -- the thread's exchange is the first thing it does
  have hearly : e ∈ h.entries := by
    rcases mem_ran he with he | rfl
    · exact he
    · obtain ⟨refreshToken, ttlMs, rfl, -, hdraw⟩ := authExec_exchanged hx hexch
      rcases mem_ran he' with he' | rfl
      · exact absurd (hej'.trans hej.symm) (hallowed.draws (by simp [hdraw]) e' he')
      · cases hinst
  rcases mem_ran he' with he' | rfl
  · exact .inl ⟨⟨e, hearly, hej, x, hexch, hm⟩, e', he', hej', hinst⟩
  · obtain ⟨rec, hrec⟩ := Option.isSome_iff_exists.mp hinst
    exact .inr ⟨hej'.symm, rec, hrec, e, hearly, hej.trans hej'.symm, x, hexch, hm⟩

include inv in
theorem Spent.seen {j m : ℕ} (hsp : Spent secrets j m h) : Seen secrets m h := by
  obtain ⟨⟨e, he, -, x, hx, hm⟩, -⟩ := hsp
  exact .inl ⟨e, he, x, (inv.exchanges e he x hx).1, hm⟩

include inv hmoves hallowed in
theorem spent_ran (hs : secrets.Sound) (hx : authExec secrets op inp h.shared = some (r, s')) :
    ∀ j m, Spent secrets j m (h.ran i c op inp r s') → ∀ x, Kept (h.ran i c op inp r s') x →
      x.revoked = false → ¬ OfDraw secrets m x := by
  intro j m hsp x hkept hlive hm
  rcases spent_cases hallowed hx hsp with hsp | ⟨rfl, rec, hrec, e, he, hthread, y, hy, hmy⟩
  · have hseen := hsp.seen inv
    rcases hkept with hkept | hkept
    · rcases hmoves.memory x hkept with ⟨x₀, hx₀, hcopy⟩ | hinst
      · exact inv.spent j m hsp x₀ (.inl hx₀) (hcopy.live hlive) (hcopy.draw hm)
      · obtain ⟨-, -, n, hn, hunseen, -⟩ := hallowed.installs x hinst
        cases hm.unique hs hn
        exact hunseen hseen
    · rcases hmoves.stored x hkept with hst | hput
      · exact inv.spent j m hsp x (.inr hst) hlive hm
      · exact ((hallowed.puts x hput).2 hlive m hm).1 hseen
  · obtain ⟨hst, -⟩ := hallowed.exchanges rec hrec e he hthread y m hy hmy
    obtain ⟨hmem, ⟨n, hdraw⟩, ⟨m', e', he', hdraw', hm'⟩, -⟩ := inv.exchanges e he y hy
    cases hm'.unique hs hmy
    obtain ⟨-, -, n', hn', hunseen, ⟨e'', he'', hthread'', hdraw''⟩, -⟩ := hallowed.installs rec hrec
    rcases hkept with hkept | hkept
    · rcases hmoves.replaces rec hrec x hkept with rfl | ⟨hold, hne⟩
      · cases hm.unique hs hn'
        exact hunseen (.inl ⟨e, he, y, hmem, hmy⟩)
      · -- the record exchanged was of the device whose record is replaced
        have hdevice := inv.device hs (.inl hold) hm he' hdraw'
        have := inv.single e he e'' he'' _ _ (hthread.trans hthread''.symm) hdraw hdraw''
        exact hne (hdevice.trans (Prod.mk.inj this).2)
    · rcases hmoves.stored x hkept with hkept | hput
      · exact hst x hkept hlive hm
      · rw [installed_put hput] at hrec
        cases hrec

include hallowed in
theorem once_ran (inv : AuthInv secrets h)
    (hx : authExec secrets op inp h.shared = some (r, s')) :
    ∀ j k m, Spent secrets j m (h.ran i c op inp r s') →
      Spent secrets k m (h.ran i c op inp r s') → j = k := by
  intro j k m hj hk
  rcases spent_cases hallowed hx hj with hold | ⟨rfl, rec, hrec, e, he, hthread, y, hy, hmy⟩ <;>
    rcases spent_cases hallowed hx hk with hold' | ⟨rfl, rec', hrec', e', he', hthread', y', hy', hmy'⟩
  · exact inv.once j k m hold hold'
  · exact absurd hold ((hallowed.exchanges rec' hrec' e' he' hthread' y' m hy' hmy').2 j)
  · exact absurd hold' ((hallowed.exchanges rec hrec e he hthread y m hy hmy).2 k)
  · rfl

include inv hmoves hallowed in
theorem revoked_ran (hs : secrets.Sound) : ∀ k ∈ (h.ran i c op inp r s').entries,
    ∀ x, returnsRevocation k = some x.deviceId → x ∈ s'.memory ∨ x ∈ s'.stored ∧ x.deviceId ≠ "" →
      x.revoked = false → ∀ n, OfDraw secrets n x →
        Installed secrets n (h.ran i c op inp r s') → k.before.drawn ≤ n := by
  rintro k hk x hret hkept hlive n hn ⟨e, he, y, hy, hny⟩
  rcases mem_ran hk with hk | rfl
  · -- a credential that this command installs was drawn after the revocations that have returned
    have hnew : ∀ y, installed ⟨i, c, op, inp, r, h.shared, s'⟩ = some y → OfDraw secrets n y →
        y.deviceId = x.deviceId → k.before.drawn ≤ n := by
      intro y hy hny hd
      obtain ⟨-, -, n', hn', -, -, hold⟩ := hallowed.installs y hy
      cases hny.unique hs hn'
      exact hold k hk (by rw [hret, hd])
    rcases hkept with hkept | ⟨hkept, hne⟩
    · rcases hmoves.memory x hkept with ⟨x₀, hx₀, hcopy⟩ | hinst
      · rcases mem_ran he with he | rfl
        · exact inv.revoked k hk x₀ (by rw [hret, hcopy.device]) (.inl hx₀) (hcopy.live hlive) n
            (hcopy.draw hn) ⟨e, he, y, hy, hny⟩
        · obtain ⟨-, -, n', hn', hunseen, -⟩ := hallowed.installs y hy
          cases hny.unique hs hn'
          exact absurd (.inr ⟨x₀, hx₀, hcopy.draw hn⟩) hunseen
      · exact hnew x hinst hn rfl
    · rcases hmoves.stored x hkept with hst | hput
      · rcases mem_ran he with he | rfl
        · exact inv.revoked k hk x hret (.inr ⟨hst, hne⟩) hlive n hn ⟨e, he, y, hy, hny⟩
        · obtain ⟨-, -, n', hn', -, ⟨e', he', -, hd⟩, -⟩ := hallowed.installs y hy
          cases hny.unique hs hn'
          exact hnew y hy hny (inv.device hs (.inr hst) hn he' hd).symm
      · rcases mem_ran he with he | rfl
        · exact absurd ⟨e, he, y, hy, hny⟩ ((hallowed.puts x hput).2 hlive n hn).2
        · rw [installed_put hput] at hy
          cases hy
  · rcases mem_ran he with he | rfl
    · exact absurd ⟨e, he, y, hy, hny⟩ (hallowed.returns x hret hkept hlive n hn)
    · rw [returnsRevocation_installed hy] at hret
      cases hret

include hallowed in
theorem fresh_ran (inv : AuthInv secrets h) (hs : secrets.Sound) :
    (h.ran i c op inp r s').Always fun h e => ∀ r n, installed e = some r → OfDraw secrets n r →
      ¬ Seen secrets n h := by
  refine inv.fresh.push fun e he x n hx hn => ?_
  cases he
  obtain ⟨-, -, n', hn', hunseen, -⟩ := hallowed.installs x hx
  cases hn.unique hs hn'
  exact hunseen

include hmoves in
theorem AuthInv.ran (inv : AuthInv secrets h) (hs : secrets.Sound)
    (hx : authExec secrets op inp h.shared = some (r, s'))
    (hallowed : AuthAllowed secrets h ⟨i, c, op, inp, r, h.shared, s'⟩) :
    AuthInv secrets (h.ran i c op inp r s') where
  same := same_ran hallowed inv
  draws := draws_ran inv hmoves
  single := single_ran hallowed inv
  first := inv.first.push fun e he => by
    cases he
    exact hallowed.draws
  grown := grown_ran inv hmoves
  known := known_ran inv hmoves hallowed
  seen := seenLt_ran inv hmoves hallowed hs
  installs := installs_ran hallowed inv
  exchanges := exchanges_ran inv hallowed hx
  fresh := fresh_ran hallowed inv hs
  spent := spent_ran inv hmoves hallowed hs hx
  once := once_ran hallowed inv hx
  has := has_ran hmoves hallowed inv
  revoked := revoked_ran inv hmoves hallowed hs

end Ran

/-- New calls and restarts: no command, and in memory only what was there or was stored. -/
theorem AuthInv.quiet (inv : AuthInv secrets h) (hs : secrets.Sound)
    {ev : Event AuthOp AuthRes AuthRequest ℕ AuthInput AuthState} {s : AuthState}
    (hev : ∀ e, ev ≠ .ran e) (hentries : (h.push ev s).entries = h.entries)
    (hdrawn : s.drawn = h.shared.drawn) (hstored : s.stored = h.shared.stored)
    (hmemory : ∀ x ∈ s.memory, x ∈ h.shared.memory ∨ x ∈ h.shared.stored ∧ x.deviceId ≠ "")
    (hhas : ∀ d, d ≠ "" → (∃ x ∈ h.shared.memory, x.deviceId = d) →
      (∃ x ∈ h.shared.stored, x.deviceId = d) → ∃ x ∈ s.memory, x.deviceId = d) :
    AuthInv secrets (h.push ev s) := by
  have hkept : ∀ x, Kept (h.push ev s) x → Kept h x := by
    rintro x (hx | hx)
    · exact (hmemory x hx).imp_right And.left
    · exact .inr (hstored ▸ hx)
  have hspent : ∀ {j m}, Spent secrets j m (h.push ev s) → Spent secrets j m h := by
    intro j m hsp
    rwa [Spent, hentries] at hsp
  refine ⟨hentries ▸ inv.same, ?_, hentries ▸ inv.single, inv.first.push ?_, ?_, ?_, ?_, ?_, ?_,
    inv.fresh.push ?_, ?_, ?_, ?_, ?_⟩
  · rw [drawList, hentries, Hist.push_shared, hdrawn]
    exact inv.draws
  · exact fun e he => absurd he (hev e)
  · rw [hentries, Hist.push_shared, hdrawn]
    exact inv.grown
  · rw [hentries]
    exact fun x hx => inv.known x (hkept x hx)
  · rintro n (⟨e, he, x, hx, hn⟩ | ⟨x, hx, hn⟩)
    · rw [Hist.push_shared, hdrawn]
      exact inv.seen n (.inl ⟨e, hentries ▸ he, x, hx, hn⟩)
    · rw [Hist.push_shared, hdrawn]
      obtain ⟨n', e, he, hd, hn'⟩ := inv.known x (hkept x (.inl hx))
      cases hn'.unique hs hn
      exact inv.draw_lt he hd
  · rw [hentries]
    exact inv.installs
  · rw [hentries]
    exact inv.exchanges
  · exact fun e he => absurd he (hev e)
  · exact fun i m hsp x hx => inv.spent i m (hspent hsp) x (hkept x hx)
  · exact fun i j m hi hj => inv.once i j m (hspent hi) (hspent hj)
  · rw [hentries, Hist.push_shared, hstored]
    intro e he x hx hne
    obtain ⟨hm, hst⟩ := inv.has e he x hx hne
    exact ⟨hhas _ hne hm hst, hst⟩
  · rw [hentries, Hist.push_shared, hstored]
    rintro k hk x hret hx hlive n hn ⟨e, he, hrest⟩
    refine inv.revoked k hk x hret ?_ hlive n hn ⟨e, hentries ▸ he, hrest⟩
    rcases hx with hx | hx
    · exact hmemory x hx
    · exact .inr hx

theorem AuthInv.began (inv : AuthInv secrets h) (hs : secrets.Sound) :
    AuthInv secrets (h.push (.began i c) h.shared) :=
  inv.quiet hs (fun _ => nofun) (Hist.entries_push_began ..) rfl rfl (fun _ hx => .inl hx)
    fun _ _ hm _ => hm

/-- A restart finds in memory what was stored. -/
theorem AuthInv.crashed (inv : AuthInv secrets h) (hs : secrets.Sound) (process : ℕ) :
    AuthInv secrets (h.push (.crashed process) (h.shared.restart process)) := by
  unfold AuthState.restart
  split_ifs
  · refine inv.quiet hs (fun _ => nofun) (Hist.entries_push_crashed ..) rfl rfl (fun x hx => ?_)
      fun d hd _ ⟨x, hx, hxd⟩ => ⟨x, ?_, hxd⟩
    · obtain ⟨hx, hne⟩ := List.mem_filter.mp hx
      exact .inr ⟨hx, of_decide_eq_true hne⟩
    · exact List.mem_filter.mpr ⟨hx, decide_eq_true (hxd ▸ hd)⟩
  · exact inv.quiet hs (fun _ => nofun) (Hist.entries_push_crashed ..) rfl rfl (fun _ hx => .inl hx)
      fun _ _ hm _ => hm

theorem authInv_start : AuthInv secrets ⟨[], .start⟩ where
  same e he := absurd he List.not_mem_nil
  draws := rfl
  single e he := absurd he List.not_mem_nil
  first pre e post he := by simp at he
  grown e he := absurd he List.not_mem_nil
  known x hx := by rcases hx with hx | hx <;> cases hx
  seen n hn := by
    rcases hn with ⟨e, he, -⟩ | ⟨x, hx, -⟩
    · cases he
    · cases hx
  installs e he := absurd he List.not_mem_nil
  exchanges e he := absurd he List.not_mem_nil
  fresh pre e post he := by simp at he
  spent i m hsp := by
    obtain ⟨⟨e, he, -⟩, -⟩ := hsp
    cases he
  once i j m hsp := by
    obtain ⟨⟨e, he, -⟩, -⟩ := hsp
    cases he
  has e he := absurd he List.not_mem_nil
  revoked k hk := absurd hk List.not_mem_nil

end Invariant

end Wazir.Api
