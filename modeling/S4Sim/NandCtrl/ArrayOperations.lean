-- The operations of the flash array, one after another: whatever the order of
-- the events of the controllers, an operation has been done when its call
-- returns, page after page.
import S4Sim.NandCtrl.FlashArray

namespace S4Sim

open NandCtrl Runs Windows

namespace FlashArray

variable {b : FlashBuild} {s s' : FlashArray b} {m₀ : FlashMemory} {k j : Fin b.num_nand_ctrls}
  {c d : Chn} {x : FlashPage} {rest pages : List FlashPage} {t : NandCtrl} {a : NandAction}
  {ichn cmdStatus : Nat}

/-! ## The invariant -/

/-- The memories at the last return, with the stores since. -/
def base (m₀ : FlashMemory) (s : FlashArray b) : FlashMemory := b.replay m₀ s.log

/-- A controller does the pages of the operation on its channels, from the memories `base`. -/
def CtrlSound (m₀ : FlashMemory) (s : FlashArray b) (k : Fin b.num_nand_ctrls) : Prop :=
  ∃ (f : FlashStream (b.ctrl k)) (m : FlashMemory) (tr : Chn → Track),
    f.pages = b.onChannel s.pages k ∧ m.image = (s.base m₀).image ∧
    (∀ c addr, InBuffers b.geometry (f.pages c) addr → m.ram addr = (s.base m₀).ram addr) ∧
    NandCtrl.Good (b.ctrl k) f m True (s.seen k) tr

structure Sound (m₀ : FlashMemory) (s : FlashArray b) : Prop where
  takes : b.Takes s.pages
  ctrls : ∀ k, s.CtrlSound m₀ k
  image : ∀ o, (∀ k c, ¬ InPart (b.ctrl k) c o) → s.image o = (s.base m₀).image o
  ram : ∀ addr, ¬ InBuffers b.geometry s.pages addr → s.ram addr = (s.base m₀).ram addr

/-- The pages that are left to issue. -/
def Left (s : FlashArray b) (rest : List FlashPage) : Prop :=
  ∀ k, (s.ctrl k).todo = b.onChannel rest k

/-- What the firmware knows where it is. -/
def PcGood (s : FlashArray b) : Prop :=
  match s.pc with
  | .idle => s.pages = [] ∧ s.Left [] ∧ (∀ k c, (s.ctrl k).writes c = []) ∧
      ∀ k c, (s.ctrl k).activeOperationCount c = 0
  | .issuing rest => s.Left rest ∧ (∀ k c, (s.ctrl k).writes c = []) ∧
      ∀ x ∈ rest, x.ppa.chn < b.geometry.nand_num_chn
  | .writing k c rest => s.Left rest ∧ (∀ j d, ¬ (j = k ∧ d = c) → (s.ctrl j).writes d = []) ∧
      ∀ x ∈ rest, x.ppa.chn < b.geometry.nand_num_chn
  | .polling ichn cmdStatus => s.Left [] ∧ (∀ k c, (s.ctrl k).writes c = []) ∧
      ichn ≤ b.geometry.nand_num_chn ∧ cmdStatus ≤ ichn * 512 ∧
      (cmdStatus = 0 → ∀ k c, (b.ctrl k).chn_index c < ichn →
        (s.ctrl k).activeOperationCount c = 0)

/-! ## A step of one controller -/

@[simp] theorem seen_channel : (s.seen k).channel = (s.ctrl k).channel := rfl

theorem put_seen_self : (s.put k t).seen k = t := by
  simp [put, seen]

theorem put_seen_other (h : j ≠ k) : (s.put k t).seen j =
    { s.seen j with image := t.image, ram := t.ram } := by
  simp [put, seen, Function.update_of_ne h]

theorem put_ctrl_self : (s.put k t).ctrl k = t := by simp [put]

theorem put_ctrl_other (h : j ≠ k) : (s.put k t).ctrl j = s.ctrl j := by
  simp [put, Function.update_of_ne h]

/-- What holds of the new controller and of the others holds of all. -/
theorem put_cases {p : Fin b.num_nand_ctrls → NandCtrl → Prop} (hself : p k t)
    (hothers : ∀ j ≠ k, p j (s.ctrl j)) (j : Fin b.num_nand_ctrls) : p j ((s.put k t).ctrl j) := by
  by_cases hj : j = k
  · subst hj
    rw [put_ctrl_self]
    exact hself
  · rw [put_ctrl_other hj]
    exact hothers j hj

/-- The controller is told nothing of what it does not touch, and changes nothing there. -/
theorem Sound.put {tr : Chn → Track} {f : FlashStream (b.ctrl k)} {m : FlashMemory}
    (h : s.Sound m₀) (hf : f.pages = b.onChannel s.pages k) (himage : m.image = (s.base m₀).image)
    (hram : ∀ c addr, InBuffers b.geometry (f.pages c) addr → m.ram addr = (s.base m₀).ram addr)
    (hold : NandCtrl.Good (b.ctrl k) f m True (s.seen k) tr) {tr' : Chn → Track}
    (hnew : NandCtrl.Good (b.ctrl k) f m True t tr')
    (houtside : ∀ o, (∀ c, ¬ InPart (b.ctrl k) c o) → t.image o = s.image o) :
    (s.put k t).Sound m₀ := by
  have hkept : ∀ addr, (∀ c, ¬ InBuffers b.geometry (b.onChannel s.pages k c) addr) →
      t.ram addr = s.ram addr := by
    intro addr haddr
    have hnot : ∀ c, ¬ InBuffers (b.ctrl k).geometry (f.pages c) addr := by
      rw [hf]
      exact haddr
    exact (hnew.ram_outside trivial hnot).trans (hold.ram_outside trivial hnot).symm
  refine ⟨h.takes, fun j => ?_, ?_, ?_⟩
  · by_cases hj : j = k
    · subst hj
      exact ⟨f, m, tr', hf, himage, hram, by rw [put_seen_self]; exact hnew⟩
    · obtain ⟨g, m', tr'', hg, himage', hram', hgood⟩ := h.ctrls j
      have hpart : ∀ d o, InPart (b.ctrl j) d o → t.image o = (s.seen j).image o :=
        fun d o ho => houtside o fun c ho' => hj (FlashBuild.part_inj ho ho').1
      have hbuffer : ∀ d addr, InBuffers (b.ctrl j).geometry (g.pages d) addr →
          t.ram addr = (s.seen j).ram addr := by
        intro d addr haddr
        rw [hg] at haddr
        exact hkept addr fun c haddr' => h.takes.buffers_apart (fun he => hj he.1) haddr haddr'
      obtain ⟨m'', heq, hbuffers, hrebased⟩ :=
        hgood.rebase (h.takes.stream_inImage hg) hpart hbuffer
      refine ⟨g, m'', tr'', hg, heq.trans himage', ?_, ?_⟩
      · exact fun d addr haddr => (hbuffers d addr haddr).trans (hram' d addr haddr)
      · rw [put_seen_other hj]
        exact hrebased
  · exact fun o ho => (houtside o (ho k)).trans (h.image o ho)
  · intro addr haddr
    refine Eq.trans (hkept addr fun c haddr' => haddr ?_) (h.ram addr haddr)
    exact haddr'.mono fun x hx => (FlashBuild.mem_onChannel.mp hx).1

theorem Sound.ctrlStep (h : s.Sound m₀) (hs : s.ctrlStep k a = some s')
    (houtside : ∀ t, nandStep (b.ctrl k) (s.seen k) a = some t →
      ∀ o, (∀ c, ¬ InPart (b.ctrl k) c o) → t.image o = s.image o) : s'.Sound m₀ := by
  obtain ⟨t, ht, rfl⟩ := Option.map_eq_some_iff.mp hs
  obtain ⟨f, m, tr, hf, himage, hram, hgood⟩ := h.ctrls k
  obtain ⟨tr', hgood'⟩ := hgood.step (h.takes.stream_inImage hf) ht
  exact h.put hf himage hram hgood hgood' (houtside t ht)

theorem PcGood.congr (h : s.PcGood) (hpc : s'.pc = s.pc) (hpages : s'.pages = s.pages)
    (htodo : ∀ j, (s'.ctrl j).todo = (s.ctrl j).todo)
    (hwrites : ∀ j, (s'.ctrl j).writes = (s.ctrl j).writes)
    (hquiet : ∀ j d, (s.ctrl j).writes d = [] → (s.ctrl j).activeOperationCount d = 0 →
      (s'.ctrl j).activeOperationCount d = 0) : s'.PcGood := by
  unfold PcGood at h ⊢
  rw [hpc]
  simp only [hpages, hwrites, Left, htodo] at h ⊢
  cases hcase : s.pc with
  | idle =>
    rw [hcase] at h
    exact ⟨h.1, h.2.1, h.2.2.1, fun k c => hquiet k c (h.2.2.1 k c) (h.2.2.2 k c)⟩
  | issuing rest | writing k c rest =>
    rw [hcase] at h
    exact h
  | polling ichn cmdStatus =>
    rw [hcase] at h
    obtain ⟨hleft, hall, hle, hstatus, hzero⟩ := h
    exact ⟨hleft, hall, hle, hstatus, fun he k c hlt => hquiet k c (hall k c) (hzero he k c hlt)⟩

/-- An event of a controller, in whatever place the firmware is. -/
theorem Sound.event (h : s.Sound m₀) (hpc : s.PcGood) (ha : isEvent a = true)
    (hs : s.ctrlStep k a = some s') : s'.Sound m₀ ∧ s'.PcGood := by
  obtain ⟨f, m, tr, hf, -, -, hgood⟩ := h.ctrls k
  have hframe : ∀ t, nandStep (b.ctrl k) (s.seen k) a = some t →
      EventFrame (b.ctrl k) (s.seen k) t :=
    fun t ht => hgood.event_frame trivial (h.takes.stream_inImage hf) ha ht
  refine ⟨h.ctrlStep hs fun t ht => (hframe t ht).image, ?_⟩
  obtain ⟨t, ht, rfl⟩ := Option.map_eq_some_iff.mp hs
  have hframe := hframe t ht
  refine hpc.congr rfl rfl ?_ ?_ ?_
  · exact put_cases (p := fun j u => u.todo = (s.ctrl j).todo) hframe.lists.todo fun _ _ => rfl
  · exact put_cases (p := fun j u => u.writes = (s.ctrl j).writes) hframe.lists.writes
      fun _ _ => rfl
  · exact put_cases (p := fun j u => ∀ d, (s.ctrl j).writes d = [] →
      (s.ctrl j).activeOperationCount d = 0 → u.activeOperationCount d = 0)
      hframe.quiet fun _ _ _ _ hcount => hcount

/-! ## The call returns -/

theorem Sound.memory_done (h : s.Sound m₀) (hleft : s.Left [])
    (hwrites : ∀ k c, (s.ctrl k).writes c = [])
    (hcount : ∀ k c, (s.ctrl k).activeOperationCount c = 0) :
    (⟨s.image, s.ram⟩ : FlashMemory) = b.executeAll (s.base m₀) s.pages := by
  have hdone : ∀ k c,
      (∀ o, InPart (b.ctrl k) c o → s.image o = (b.executeAll (s.base m₀) s.pages).image o) ∧
      ∀ addr, InBuffers b.geometry (b.onChannel s.pages k c) addr →
        s.ram addr = (b.executeAll (s.base m₀) s.pages).ram addr := by
    intro k c
    obtain ⟨f, m, tr, hf, himage, hram, hgood⟩ := h.ctrls k
    have hissued : ∀ d, (s.seen k).issued d = b.onChannel s.pages k d := by
      intro d
      have hpages := hgood.working.pages d
      rwa [hf, show (s.seen k).todo d = [] from congrFun (hleft k) d, List.append_nil] at hpages
    obtain ⟨hpart, hown⟩ := hgood.executed (hwrites k c) (hcount k c)
    have hbase : Alike (b.ctrl k) c (InBuffers b.geometry (b.onChannel s.pages k c)) m
        (s.base m₀) := by
      refine ⟨fun o _ => congrFun himage o, fun addr haddr => hram c addr ?_⟩
      rwa [hf]
    have hsame := (hbase.executePages
      (fun x hx => h.takes.inImage (FlashBuild.mem_onChannel.mp hx).1
        (FlashBuild.mem_onChannel.mp hx).2) fun _ ha => ha)
    have hall := h.takes.executeAll_alike (m := s.base m₀) k c fun x hx => hx
    constructor
    · intro o ho
      rw [hall.image o ho, ← hsame.image o ho, ← hissued]
      exact hpart o ho
    · intro addr haddr
      rw [hall.ram addr haddr, ← hsame.ram addr haddr, ← hissued]
      apply hown addr
      intro y hy _
      rw [hissued] at hy
      have hnot : ¬ InBuffers b.geometry (b.onChannel s.pages k c.other) addr :=
        h.takes.buffers_apart (fun he => Chn.other_ne he.2.symm) haddr
      by_contra hcon
      have hgeometry : (b.ctrl k).geometry = b.geometry := rfl
      rw [hgeometry] at hcon
      exact hnot ⟨y, hy, by omega, by omega⟩
  have himage : s.image = (b.executeAll (s.base m₀) s.pages).image := by
    funext o
    by_cases ho : ∀ k c, ¬ InPart (b.ctrl k) c o
    · rw [h.takes.executeAll_image (fun x hx => hx) ho, h.image o ho]
    · push Not at ho
      obtain ⟨k, c, ho⟩ := ho
      exact (hdone k c).1 o ho
  have hram : s.ram = (b.executeAll (s.base m₀) s.pages).ram := by
    funext addr
    by_cases haddr : InBuffers b.geometry s.pages addr
    · obtain ⟨k, c, haddr⟩ := h.takes.buffer_channel haddr
      exact (hdone k c).2 addr haddr
    · rw [FlashBuild.executeAll_ram haddr, h.ram addr haddr]
  rw [himage, hram]

/-- The controllers have done the pages they were given, and are given others. -/
theorem Sound.rearm (h : s.Sound m₀) (hwrites : ∀ k c, (s.ctrl k).writes c = [])
    (hcount : ∀ k c, (s.ctrl k).activeOperationCount c = 0) (htakes : b.Takes s'.pages)
    (himage : s'.image = s.image) (hram : s'.ram = s.ram)
    (hbase : s'.base m₀ = ⟨s.image, s.ram⟩)
    (hctrl : ∀ k, s'.ctrl k =
      { s.ctrl k with todo := b.onChannel s'.pages k, issued := fun _ => [] }) : s'.Sound m₀ := by
  refine ⟨htakes, fun k => ?_, fun o _ => ?_, fun addr _ => ?_⟩
  · obtain ⟨f, m, tr, -, -, -, hgood⟩ := h.ctrls k
    have hseen : s'.seen k =
        { s.seen k with todo := (htakes.stream k).pages, issued := fun _ => [] } := by
      unfold FlashArray.seen
      rw [hctrl, himage, hram]
      rfl
    have hgood' : NandCtrl.Good (b.ctrl k) (htakes.stream k) ⟨s.image, s.ram⟩ True (s'.seen k)
        fun _ => ⟨[], .idle, [], []⟩ := by
      rw [hseen]
      exact hgood.rearm (hwrites k) (hcount k) (htakes.stream k)
    exact ⟨_, _, _, rfl, by rw [hbase], fun _ _ _ => by rw [hbase], hgood'⟩
  · rw [hbase, himage]
  · rw [hbase, hram]

theorem base_snoc {e : MemoryEvent} (hlog : s'.log = s.log ++ [e]) :
    s'.base m₀ = b.applyEvent (s.base m₀) e := by
  simp [base, FlashBuild.replay, hlog]

theorem Sound.finish (h : s.Sound m₀) (hleft : s.Left [])
    (hwrites : ∀ k c, (s.ctrl k).writes c = [])
    (hcount : ∀ k c, (s.ctrl k).activeOperationCount c = 0) :
    s.finish.Sound m₀ ∧ s.finish.PcGood := by
  have hbase : s.finish.base m₀ = ⟨s.image, s.ram⟩ := by
    rw [h.memory_done hleft hwrites hcount]
    exact base_snoc (s := s) (e := .operation s.pages) rfl
  have hnone : b.Takes s.finish.pages := FlashBuild.Takes.nil
  refine ⟨h.rearm hwrites hcount hnone rfl rfl hbase fun k => ?_, rfl, hleft, hwrites, hcount⟩
  have htodo : b.onChannel s.finish.pages k = (s.ctrl k).todo := (hleft k).symm
  rw [htodo]
  rfl

theorem Sound.start {op : FlashOp} {pages : List (Ppa × Nat)} (h : s.Sound m₀) (hpc : s.PcGood)
    (hidle : s.pc = .idle) (htakes : b.Takes (pages.map fun x => ⟨op, x.1, x.2⟩)) :
    (s.start op pages).Sound m₀ ∧ (s.start op pages).PcGood := by
  have hgood := hpc
  unfold PcGood at hgood
  rw [hidle] at hgood
  obtain ⟨hpages, hleft, hwrites, hcount⟩ := hgood
  unfold FlashArray.start
  generalize pages.map (fun x => (⟨op, x.1, x.2⟩ : FlashPage)) = xs at htakes
  simp only
  split
  · exact ⟨h, hpc⟩
  · have hbase : s.base m₀ = ⟨s.image, s.ram⟩ := by
      rw [h.memory_done hleft hwrites hcount, hpages]
      rfl
    refine ⟨h.rearm hwrites hcount htakes rfl rfl hbase fun _ => rfl, fun _ => rfl, hwrites, ?_⟩
    exact fun x hx => (htakes.has_page x hx).1

/-- A store of another master. -/
theorem Sound.store {addr : Nat} {value : UInt8} (h : s.Sound m₀)
    (hout : ¬ InBuffers b.geometry s.pages addr) (hram' : s'.ram = Function.update s.ram addr value)
    (himage' : s'.image = s.image) (hctrl : s'.ctrl = s.ctrl) (hpages : s'.pages = s.pages)
    (hlog : s'.log = s.log ++ [.store addr value]) : s'.Sound m₀ := by
  have hbase : s'.base m₀ =
      { s.base m₀ with ram := Function.update (s.base m₀).ram addr value } := base_snoc hlog
  refine ⟨hpages ▸ h.takes, fun k => ?_, fun o ho => ?_, fun a ha => ?_⟩
  · obtain ⟨f, m, tr, hf, himage, hram, hgood⟩ := h.ctrls k
    have hne : ∀ c a, InBuffers (b.ctrl k).geometry (f.pages c) a → a ≠ addr := by
      rintro c a ha rfl
      rw [hf] at ha
      exact hout (ha.mono fun x hx => (FlashBuild.mem_onChannel.mp hx).1)
    obtain ⟨m', heq, hbuffers, hrebased⟩ := hgood.rebase (h.takes.stream_inImage hf)
      (fun _ _ _ => rfl) fun c a ha => Function.update_of_ne (hne c a ha) value s.ram
    refine ⟨f, m', tr, by rw [hf, hpages], by rw [hbase, heq, himage], fun c a ha => ?_, ?_⟩
    · rw [hbase, hbuffers c a ha, hram c a ha]
      exact (Function.update_of_ne (hne c a ha) _ _).symm
    · have hseen : s'.seen k = { s.seen k with
          image := s.image, ram := Function.update s.ram addr value } := by
        unfold FlashArray.seen
        rw [hctrl, himage', hram']
      rw [hseen]
      exact hrebased
  · rw [himage', hbase]
    exact h.image o ho
  · rw [hpages] at ha
    rw [hram', hbase]
    by_cases he : a = addr
    · subst he
      simp
    · simp only [Function.update_of_ne he]
      exact h.ram a ha

/-! ## A step of the firmware -/

theorem Sound.sane (h : s.Sound m₀) (k : Fin b.num_nand_ctrls) : (s.seen k).crashed = false := by
  obtain ⟨f, m, tr, -, -, -, hgood⟩ := h.ctrls k
  exact hgood.working.sane

/-- The room of a channel has at most the commands of 128 pages. -/
theorem Sound.room_le (h : s.Sound m₀) (k : Fin b.num_nand_ctrls) (c : Chn) :
    ((s.ctrl k).channel c).cmd_waiting_room.items ≤ 256 := by
  obtain ⟨f, m, tr, hf, -, -, hgood⟩ := h.ctrls k
  have hroom := hgood.room_le c
  have hlength : (b.onChannel s.pages k c).length ≤ s.pages.length := List.length_filter_le _ _
  have hpages := h.takes.length
  rw [hf] at hroom
  exact Nat.le_trans hroom (by omega)

theorem Sound.count_lt (h : s.Sound m₀) (k : Fin b.num_nand_ctrls) (c : Chn) :
    (s.ctrl k).activeOperationCount c < 512 := by
  have hroom := h.room_le k c
  obtain ⟨f, m, tr, -, -, -, hgood⟩ := h.ctrls k
  have hactive := (hgood.working.tracked c).active
  rw [seen_channel] at hactive
  have hlt : ((s.ctrl k).channel c).active_nand_ops < 256 := by
    rw [hactive]
    exact Nat.mod_lt _ (by decide)
  unfold activeOperationCount
  omega

/-- The firmware issues the next page. -/
theorem Sound.next_page (h : s.Sound m₀) (hpc : s.PcGood) (hissuing : s.pc = .issuing (x :: rest)) :
    ∃ s', s.firmwareStep = some s' ∧ s'.Sound m₀ ∧ s'.PcGood := by
  unfold PcGood at hpc
  rw [hissuing] at hpc
  obtain ⟨hleft, hwrites, hchn⟩ := hpc
  obtain ⟨k, c, hof, hindex⟩ := FlashBuild.exists_channel (hchn x List.mem_cons_self)
  have htodo : (s.seen k).todo c = x :: b.onChannel rest k c :=
    (congrFun (hleft k) c).trans (FlashBuild.onChannel_cons_self hindex.symm)
  have hempty : (s.seen k).writes c = [] := hwrites k c
  have hnext : nandStep (b.ctrl k) (s.seen k) (.nextPage c) =
      some { s.seen k with
        todo := Function.update (s.seen k).todo c (b.onChannel rest k c)
        writes := Function.update (s.seen k).writes c (pageWrites b.geometry x)
        issued := Function.update (s.seen k).issued c ((s.seen k).issued c ++ [x]) } := by
    unfold nandStep
    rw [if_neg (by rw [h.sane]; decide)]
    simp only [nextPage, hempty, htodo]
    rfl
  generalize ht : ({ s.seen k with todo := _, writes := _, issued := _ } : NandCtrl) = t at hnext
  have hstep : s.ctrlStep k (.nextPage c) = some (s.put k t) := by
    rw [FlashArray.ctrlStep, hnext]
    rfl
  have hsound : (s.put k t).Sound m₀ := by
    refine h.ctrlStep hstep fun t' ht' o _ => ?_
    obtain rfl := Option.some.inj (hnext.symm.trans ht')
    rw [← ht]
    rfl
  refine ⟨{ s.put k t with pc := .writing k c rest }, ?_,
    ⟨hsound.takes, hsound.ctrls, hsound.image, hsound.ram⟩, ?_, ?_, ?_⟩
  · unfold firmwareStep
    simp only [hissuing, hof, Option.bind_some, hstep, Option.map_some]
  · refine put_cases (p := fun j u => u.todo = b.onChannel rest j) ?_ fun j hj => ?_
    · rw [← ht]
      funext d
      by_cases hd : d = c
      · subst hd
        exact Function.update_self ..
      · refine (Function.update_of_ne hd ..).trans ((congrFun (hleft k) d).trans ?_)
        exact FlashBuild.onChannel_cons_other hindex.symm fun he => hd he.2
    · funext d
      refine (congrFun (hleft j) d).trans (FlashBuild.onChannel_cons_other hindex.symm ?_)
      exact fun he => hj he.1
  · refine put_cases (p := fun j u => ∀ d, ¬ (j = k ∧ d = c) → u.writes d = []) ?_
      fun j _ d _ => hwrites j d
    intro d hne
    rw [← ht]
    have hd : ¬ d = c := fun hd => hne ⟨rfl, hd⟩
    exact (Function.update_of_ne hd ..).trans (hwrites k d)
  · exact fun y hy => hchn y (List.mem_cons_of_mem _ hy)

/-- The firmware writes a register, and its channel has room for the command. -/
theorem Sound.register (h : s.Sound m₀) (hpc : s.PcGood) (hwriting : s.pc = .writing k c rest) :
    ∃ s', s.firmwareStep = some s' ∧ s'.Sound m₀ ∧ s'.PcGood := by
  unfold PcGood at hpc
  rw [hwriting] at hpc
  obtain ⟨hleft, hwrites, hchn⟩ := hpc
  unfold firmwareStep
  simp only [hwriting]
  split
  · rename_i hempty
    refine ⟨_, rfl, ⟨h.takes, h.ctrls, h.image, h.ram⟩, hleft, fun j d => ?_, hchn⟩
    by_cases hat : j = k ∧ d = c
    · obtain ⟨rfl, rfl⟩ := hat
      exact hempty
    · exact hwrites j d hat
  · rename_i hnonempty
    obtain ⟨w, ws, hws⟩ := List.exists_cons_of_ne_nil hnonempty
    have hroom := h.room_le k c
    have hreturns : ∃ t, (s.seen k).registerWrite (b.ctrl k) c = some t := by
      have hws' : (s.seen k).writes c = w :: ws := hws
      have hroom' : ((s.seen k).channel c).cmd_waiting_room.items ≤ 256 := hroom
      unfold registerWrite
      simp only [hws']
      rw [if_neg (by omega)]
      exact ⟨_, rfl⟩
    obtain ⟨t, ht⟩ := hreturns
    obtain ⟨f, m, tr, -, -, -, hgood⟩ := h.ctrls k
    obtain ⟨htodo, hwritten, -, himage⟩ := hgood.register_frame ht
    have hnext : nandStep (b.ctrl k) (s.seen k) (.registerWrite c) = some t := by
      unfold nandStep
      rw [if_neg (by rw [h.sane]; decide)]
      exact ht
    have hstep : s.ctrlStep k (.registerWrite c) = some (s.put k t) := by
      rw [FlashArray.ctrlStep, hnext]
      rfl
    have hsound : (s.put k t).Sound m₀ := by
      refine h.ctrlStep hstep fun t' ht' o _ => ?_
      obtain rfl := Option.some.inj (hnext.symm.trans ht')
      exact congrFun himage o
    refine ⟨s.put k t, hstep, hsound, ?_⟩
    have hpc' : (s.put k t).pc = .writing k c rest := hwriting
    unfold PcGood
    rw [hpc']
    refine ⟨?_, ?_, hchn⟩
    · exact put_cases (p := fun j u => u.todo = b.onChannel rest j) (htodo.trans (hleft k))
        fun j _ => hleft j
    · refine put_cases (p := fun j u => ∀ d, ¬ (j = k ∧ d = c) → u.writes d = []) ?_
        fun j _ => hwrites j
      intro d hne
      have hd : ¬ d = c := fun hd => hne ⟨rfl, hd⟩
      rw [hwritten, Function.update_of_ne hd]
      exact hwrites k d hne

/-- The firmware reads the count of a channel, or has come to the end of its loop. A channel
whose count was 0 stays at 0, so a sum of 0 tells of all channels. -/
theorem Sound.poll (h : s.Sound m₀) (hpc : s.PcGood) (hpolling : s.pc = .polling ichn cmdStatus) :
    ∃ s', s.firmwareStep = some s' ∧ s'.Sound m₀ ∧ s'.PcGood := by
  unfold PcGood at hpc
  rw [hpolling] at hpc
  obtain ⟨hleft, hwrites, hle, hstatus, hzero⟩ := hpc
  unfold firmwareStep
  simp only [hpolling]
  split
  · rename_i hlt
    obtain ⟨k, c, hof, hindex⟩ := FlashBuild.exists_channel hlt
    have hcount := h.count_lt k c
    have hchannels := b.geometry.chn_le
    have hsum : (cmdStatus + (s.ctrl k).activeOperationCount c) % 2 ^ 32 =
        cmdStatus + (s.ctrl k).activeOperationCount c := Nat.mod_eq_of_lt (by omega)
    rw [hof, Option.map_some, hsum]
    refine ⟨_, rfl, ⟨h.takes, h.ctrls, h.image, h.ram⟩, hleft, hwrites, hlt, by omega, ?_⟩
    intro he j d hj
    by_cases hat : j = k ∧ d = c
    · obtain ⟨rfl, rfl⟩ := hat
      exact Nat.eq_zero_of_add_eq_zero_left he
    · apply hzero (by omega) j d
      refine Nat.lt_of_le_of_ne (Nat.le_of_lt_succ hj) fun heq => hat ?_
      exact FlashBuild.index_inj (heq.trans hindex.symm)
  · rename_i hend
    split
    · rename_i he
      have hcount : ∀ k c, (s.ctrl k).activeOperationCount c = 0 := fun k c =>
        hzero he k c (by have := FlashBuild.index_lt k c; omega)
      exact ⟨_, rfl, h.finish hleft hwrites hcount⟩
    · refine ⟨_, rfl, ⟨h.takes, h.ctrls, h.image, h.ram⟩, hleft, hwrites, Nat.zero_le _,
        Nat.zero_le _, ?_⟩
      exact fun _ k c hk => absurd hk (Nat.not_lt_zero _)

/-- Within a call the firmware goes on. -/
theorem Sound.firmware (h : s.Sound m₀) (hpc : s.PcGood) (hcall : s.pc ≠ .idle) :
    ∃ s', s.firmwareStep = some s' ∧ s'.Sound m₀ ∧ s'.PcGood := by
  cases hcase : s.pc with
  | idle => exact absurd hcase hcall
  | issuing rest =>
    cases rest with
    | nil =>
      have hgood := hpc
      unfold PcGood at hgood
      rw [hcase] at hgood
      unfold firmwareStep
      simp only [hcase]
      refine ⟨_, rfl, ⟨h.takes, h.ctrls, h.image, h.ram⟩, hgood.1, hgood.2.1, Nat.zero_le _,
        Nat.zero_le _, ?_⟩
      exact fun _ k c hk => absurd hk (Nat.not_lt_zero _)
    | cons x rest => exact h.next_page hpc hcase
  | writing k c rest => exact h.register hpc hcase
  | polling ichn cmdStatus => exact h.poll hpc hcase

/-! ## Whole runs -/

theorem sound_initial (b : FlashBuild) (toggle : Fin b.num_nand_ctrls → Bool)
    (regs : Fin b.num_nand_ctrls → Chn → Nat → Nat → UInt8) (image ram : Nat → UInt8) :
    (b.initial toggle regs image ram).Sound ⟨image, ram⟩ ∧
      (b.initial toggle regs image ram).PcGood := by
  have hnone : b.Takes [] := .nil
  refine ⟨⟨hnone, fun k => ?_, fun _ _ => rfl, fun _ _ => rfl⟩, rfl, fun _ => rfl, fun _ _ => rfl,
    fun _ _ => rfl⟩
  have hgood : NandCtrl.Good (b.ctrl k) (hnone.stream k) ⟨image, ram⟩ True
      ((b.initial toggle regs image ram).seen k) fun _ => ⟨[], .idle, [], []⟩ := good_initial
  exact ⟨_, _, _, rfl, rfl, fun _ _ _ => rfl, hgood⟩

/-- Every step that keeps the promises keeps the invariant. -/
theorem Sound.step {act : FlashAction b} (h : s.Sound m₀) (hpc : s.PcGood)
    (hok : b.Promised s act) (hs : b.step s act = some s') : s'.Sound m₀ ∧ s'.PcGood := by
  unfold FlashBuild.step at hs
  cases act with
  | start op pages =>
    simp only at hs
    split at hs
    · cases hs
      exact h.start hpc ‹_› hok
    · cases hs
  | firmware =>
    have hcall : s.pc ≠ .idle := by
      intro hidle
      simp only [firmwareStep, hidle] at hs
      cases hs
    obtain ⟨t, ht, hgood⟩ := h.firmware hpc hcall
    obtain rfl := Option.some.inj (ht.symm.trans hs)
    exact hgood
  | event k a =>
    simp only at hs
    split at hs
    · exact h.event hpc ‹_› hs
    · cases hs
  | store addr value =>
    cases hs
    exact ⟨h.store hok rfl rfl rfl rfl rfl,
      hpc.congr rfl rfl (fun _ => rfl) (fun _ => rfl) fun _ _ _ hcount => hcount⟩

theorem sound_run {toggle : Fin b.num_nand_ctrls → Bool}
    {regs : Fin b.num_nand_ctrls → Chn → Nat → Nat → UInt8} {image ram : Nat → UInt8}
    {acts : List (FlashAction b)}
    (hok : AllSteps b.step b.Promised (b.initial toggle regs image ram) acts)
    (hrun : run b.step (b.initial toggle regs image ram) acts = some s) :
    s.Sound ⟨image, ram⟩ ∧ s.PcGood :=
  run_invariant_of_ok (I := fun _ t => t.Sound ⟨image, ram⟩ ∧ t.PcGood)
    (sound_initial b toggle regs image ram)
    (fun _ _ _ _ _ ht hok hs => ht.1.step ht.2 hok hs) hok hrun

theorem Sound.idle_memory (h : s.Sound m₀) (hpc : s.PcGood) (hidle : s.pc = .idle) :
    (⟨s.image, s.ram⟩ : FlashMemory) = s.base m₀ := by
  unfold PcGood at hpc
  rw [hidle] at hpc
  obtain ⟨hpages, hleft, hwrites, hcount⟩ := hpc
  rw [h.memory_done hleft hwrites hcount, hpages]
  rfl

end FlashArray

/-- In every run of the controllers, of the firmware and of the other masters, with the events
in any order: between two calls the memories are those of the operations that have returned,
each done page after page, and of the stores, in their order. No controller panics, and within
a call the firmware always has a next step. -/
theorem every_flash_operation_is_done_when_its_call_returns (b : FlashBuild)
    {toggle : Fin b.num_nand_ctrls → Bool} {regs : Fin b.num_nand_ctrls → Chn → Nat → Nat → UInt8}
    {image ram : Nat → UInt8} {acts : List (FlashAction b)} {s : FlashArray b}
    (hok : AllSteps b.step b.Promised (b.initial toggle regs image ram) acts)
    (hrun : run b.step (b.initial toggle regs image ram) acts = some s) :
    (s.pc = .idle → (⟨s.image, s.ram⟩ : FlashMemory) = b.replay ⟨image, ram⟩ s.log) ∧
      (∀ k, (s.ctrl k).crashed = false) ∧
      (s.pc ≠ .idle → ∃ s', b.step s .firmware = some s') := by
  obtain ⟨hsound, hpc⟩ := FlashArray.sound_run hok hrun
  refine ⟨hsound.idle_memory hpc, hsound.sane, fun hcall => ?_⟩
  obtain ⟨s', hs', -⟩ := hsound.firmware hpc hcall
  exact ⟨s', hs'⟩

/-! ## A program -/

/-- One controller, with pages of two bytes. -/
def twoBytePages : FlashBuild where
  geometry :=
    { twoChannels with
      nand_page_size := 1
      host_page_size := 1
      mapping_table_bytes := 100
      tables_fit := by decide }
  channels_even := by decide
  chips_le := by decide

/-- The only controller. -/
def firstCtrl : Fin twoBytePages.num_nand_ctrls := ⟨0, by decide⟩

/-- The second channel programs a page from the address 16 on. -/
def programmedPage : FlashPage := ⟨.FLASH_PROGRAM, ⟨1, 0, 0, 1, 2⟩, 16⟩

/-- The register writes, the bytes in the wrong order, the end of the DMA and of the chip, and
the poll. -/
def programming : List (FlashAction twoBytePages) :=
  .start .FLASH_PROGRAM [(programmedPage.ppa, programmedPage.ssd_addr)] ::
    (List.replicate 10 .firmware ++
      [.event firstCtrl (.moveByte 0 1), .firmware, .event firstCtrl (.moveByte 0 0),
        .event firstCtrl (.dmaComplete 0), .event firstCtrl (.chipComplete .channel_1 0)] ++
      List.replicate 2 .firmware)

def beforeProgram : FlashArray twoBytePages :=
  twoBytePages.initial (fun _ => true) (fun _ _ _ _ => 0) (fun _ => 0) fun addr =>
    if addr = 16 then 7 else 9

def afterProgram : FlashArray twoBytePages :=
  (run twoBytePages.step beforeProgram programming).getD beforeProgram

theorem takes_programmedPage : twoBytePages.Takes [programmedPage] := by
  refine ⟨by decide, ?_, ?_, ?_⟩
  · simp only [List.mem_singleton, forall_eq]
    decide
  · simp only [List.mem_singleton, forall_eq]
    decide
  · simp only [List.mem_singleton, forall_eq]
    exact fun hne => absurd rfl hne

/-- Only the call of the operation has a promise to keep. -/
theorem promised_programming :
    AllSteps twoBytePages.step twoBytePages.Promised beforeProgram programming := by
  refine ⟨takes_programmedPage, fun t _ => allSteps_of_forall fun act hact u => ?_⟩
  simp only [List.mem_append, List.mem_replicate, List.mem_cons, List.not_mem_nil,
    or_false] at hact
  rcases hact with (⟨-, rfl⟩ | rfl | rfl | rfl | rfl | rfl) | ⟨-, rfl⟩ <;> trivial

theorem a_page_of_the_second_channel_is_programmed :
    ∃ s, run twoBytePages.step beforeProgram programming = some s ∧
      (⟨s.image, s.ram⟩ : FlashMemory) =
        twoBytePages.executeAll ⟨fun _ => 0, beforeProgram.ram⟩ [programmedPage] := by
  have hrun : run twoBytePages.step beforeProgram programming = some afterProgram := rfl
  obtain ⟨hidle, -, -⟩ :=
    every_flash_operation_is_done_when_its_call_returns twoBytePages promised_programming hrun
  exact ⟨_, hrun, hidle rfl⟩

end S4Sim
