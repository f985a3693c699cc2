import OcreRuntime.OcreApi.SensorQueries

/-!
# The discovery of sensors

After a discovery the sensors that count are the first devices of the list that have a name in
the device tree, a driver with `channel_get`, and channels. A device that is skipped may have
been written into a slot, but no function sees anything of it.
-/

namespace OcreRuntime

variable {cfg : SensorConfig}

namespace SensorTable

/-- A device of which something can be seen. -/
def keep (cfg : SensorConfig) (device : SensorDevice × ℕ) : Option SensorView :=
  match device.1.name with
  | none => none
  | some name =>
      if cfg.lists name ∧ device.1.api = some true ∧ device.1.ready = true ∧
          device.1.openedChannels cfg ≠ [] then
        some ⟨some device.2, name.take (maxSensorNameLength - 1), device.1.openedChannels cfg⟩
      else none

def keptSensors (cfg : SensorConfig) (devices : List SensorDevice) : List SensorView :=
  LimitedScan.found (keep cfg) cfg.maxSensors devices.zipIdx

variable {t : SensorTable cfg} {dev : SensorDevice} {i count : ℕ} {name : CString}
  {sensor : OcreSensorInternal cfg}

/-- The buffer of the name is full of zeros behind the name. -/
theorem sensorName_fill : (fill dev i name count sensor).info.sensorName =
    name.take (maxSensorNameLength - 1) ++
      List.replicate (maxSensorNameLength - 1 - name.length) 0 ++ [0] := by
  obtain ⟨c, hc⟩ : ∃ c, sensor.info.sensorName.drop (maxSensorNameLength - 1) = [c] := by
    rw [← List.length_eq_one_iff, List.length_drop, sensor.info.length_sensorName]
    rfl
  have hlength : (name.take (maxSensorNameLength - 1) ++
      List.replicate (maxSensorNameLength - 1 - name.length) 0).length =
        maxSensorNameLength - 1 := by
    rw [List.length_append, List.length_take, List.length_replicate]
    omega
  change (strncpy _ _ _).set _ _ = _
  rw [strncpy, hc, List.set_append_right _ _ hlength.le, hlength, Nat.sub_self, List.set_cons_zero]

theorem name_fill (h : 0 ∉ name) :
    (fill dev i name count sensor).name = name.take (maxSensorNameLength - 1) := by
  have hname : ∀ c ∈ name.take (maxSensorNameLength - 1), decide (c ≠ 0) = true := by
    intro c hc
    have hne : c ≠ 0 := fun heq ↦ h (heq ▸ List.mem_of_mem_take hc)
    simpa using hne
  have hzeros : (List.replicate (maxSensorNameLength - 1 - name.length) (0 : UInt8) ++
      [0]).takeWhile (fun c ↦ decide (c ≠ 0)) = [] := by
    simpa [List.takeWhile_append] using Eq.symm
  rw [OcreSensorInternal.name, sensorName_fill, List.append_assoc,
    List.takeWhile_append_of_pos hname, hzeros, List.append_nil]

theorem channels_fill (hready : dev.ready = true) :
    (fill dev i name count sensor).info.numChannels = (dev.openedChannels cfg).length ∧
      (fill dev i name count sensor).view.channels = dev.openedChannels cfg := by
  have hopens := dev.setOpenedChannels_spec sensor.info.length_channels
  exact ⟨hopens.count hready, hopens.channels hready⟩

theorem listed_fill (hready : dev.ready = true) :
    (fill dev i name count sensor).Listed count := by
  refine ⟨rfl, rfl, ?_, ?_⟩
  · rw [sensorName_fill, List.getLast?_concat]
  · rw [(channels_fill hready).1, (channels_fill hready).2]

/-- The device is kept exactly if its slot comes to count. -/
theorem keep_eq (i count : ℕ) (sensor : OcreSensorInternal cfg) (hname : dev.name = some name)
    (hlisted : cfg.lists name = true) (hapi : dev.api = some true) :
    keep cfg (dev, i) =
      if (fill dev i name count sensor).info.numChannels ≤ 0 then none
      else some (fill dev i name count sensor).view := by
  cases hready : dev.ready with
  | false =>
      have hchannels : (fill dev i name count sensor).info.numChannels = -19 :=
        (dev.setOpenedChannels_spec sensor.info.length_channels).notReady hready
      simp [keep, hname, hready, hchannels]
  | true =>
      have hnoNul := dev.noNul name hname
      have hview : (fill dev i name count sensor).view =
          ⟨some i, name.take (maxSensorNameLength - 1), dev.openedChannels cfg⟩ := by
        rw [← name_fill hnoNul, ← (channels_fill hready).2]
        rfl
      rw [hview, (channels_fill hready).1]
      by_cases hnil : dev.openedChannels cfg = []
      · simp [keep, hname, hnil]
      · simp [keep, hname, hlisted, hapi, hready, hnil]

/-- A step writes at most the slot behind those that count, and counts it for a device that is
kept. -/
theorem discoverDevice_cases (device : SensorDevice × ℕ) (t : SensorTable cfg)
    (hlt : t.sensorCount < cfg.maxSensors) :
    (keep cfg device = none ∧ (discoverDevice device t).sensorCount = t.sensorCount ∧
        (discoverDevice device t).sensors.take t.sensorCount = t.sensors.take t.sensorCount) ∨
      ∃ new : OcreSensorInternal cfg, keep cfg device = some new.view ∧
        new.Listed t.sensorCount ∧ (discoverDevice device t).sensorCount = t.sensorCount + 1 ∧
        (discoverDevice device t).sensors = t.sensors.set t.sensorCount new := by
  obtain ⟨dev, i⟩ := device
  cases hname : dev.name with
  | none => exact .inl (by simp [keep, discoverDevice, hname])
  | some name =>
  by_cases hlisted : cfg.lists name = true
  swap
  · exact .inl (by simp [keep, discoverDevice, hname, hlisted])
  by_cases hapi : dev.api = some true
  swap
  · exact .inl (by simp [keep, discoverDevice, hname, hapi])
  have hslot : t.sensorCount < t.sensors.length := t.length_sensors ▸ hlt
  have hkeep := keep_eq i t.sensorCount t.sensors[t.sensorCount] hname hlisted hapi
  have hdiscover : discoverDevice (dev, i) t =
      if (fill dev i name t.sensorCount t.sensors[t.sensorCount]).info.numChannels ≤ 0 then
        { t with
          sensors := t.sensors.set t.sensorCount
            (fill dev i name t.sensorCount t.sensors[t.sensorCount])
          length_sensors := by rw [List.length_set, t.length_sensors] }
      else
        { sensors := t.sensors.set t.sensorCount
            (fill dev i name t.sensorCount t.sensors[t.sensorCount])
          sensorCount := t.sensorCount + 1
          length_sensors := by rw [List.length_set, t.length_sensors]
          sensorCount_le := hlt } := by
    simp [discoverDevice, hname, hlisted, hapi, Nat.not_le.mpr hlt]
  rw [hkeep, hdiscover]
  split
  next => exact .inl ⟨rfl, rfl, List.take_set_of_le le_rfl⟩
  next hpositive =>
    have hready : dev.ready = true := by
      by_contra hnot
      have hopens := dev.setOpenedChannels_spec t.sensors[t.sensorCount].info.length_channels
      apply hpositive
      change (dev.setOpenedChannels cfg _).1 ≤ 0
      rw [hopens.notReady (Bool.eq_false_iff.mpr hnot)]
      decide
    exact .inr ⟨_, rfl, listed_fill hready, rfl, rfl⟩

theorem adds_discoverDevice (cfg : SensorConfig) :
    LimitedScan.Adds (@discoverDevice cfg) sensorCount cfg.maxSensors (keep cfg) visible
      Sound where
  counts t _ := t.length_visible.symm
  keeps device t h hlt := by
    rcases discoverDevice_cases device t hlt with
      ⟨-, hcount, htake⟩ | ⟨new, -, hnew, hcount, hsensors⟩
    · intro i sensor hi hsensor
      rw [hcount] at hi
      apply h i sensor hi
      rw [← List.getElem?_take_of_lt hi, ← htake, List.getElem?_take_of_lt hi, hsensor]
    · intro i sensor hi hsensor
      rw [hcount] at hi
      rw [hsensors] at hsensor
      rcases Nat.lt_succ_iff_lt_or_eq.mp hi with hlt' | rfl
      · rw [List.getElem?_set_ne hlt'.ne'] at hsensor
        exact h i sensor hlt' hsensor
      · rw [List.getElem?_set_self (t.length_sensors ▸ hlt)] at hsensor
        exact Option.some.inj hsensor ▸ hnew
  adds device t h hlt := by
    rcases discoverDevice_cases device t hlt with
      ⟨hkeep, hcount, htake⟩ | ⟨new, hkeep, -, hcount, hsensors⟩
    · rw [visible, hcount, htake, hkeep, Option.toList_none, List.append_nil, visible]
    · rw [visible, hcount, hsensors, LimitedScan.take_succ_set (t.length_sensors ▸ hlt), hkeep,
        List.map_append]
      rfl

theorem ocreSensorsDiscover_spec (devices : Option (List SensorDevice)) (t : SensorTable cfg) :
    (t.ocreSensorsDiscover devices).2.Sound ∧
      (t.ocreSensorsDiscover devices).2.visible = keptSensors cfg (devices.getD []) := by
  have hzero : (zero cfg).Sound := fun _ _ h ↦ absurd h (Nat.not_lt_zero _)
  have hnothing : (zero cfg).visible = keptSensors cfg [] := by
    simp [visible, zero, keptSensors, LimitedScan.found]
  rcases devices with _ | _ | ⟨dev, devices⟩
  · exact ⟨hzero, hnothing⟩
  · exact ⟨hzero, hnothing⟩
  · exact (adds_discoverDevice cfg).scan (dev :: devices).zipIdx (zero cfg) hzero (Nat.zero_le _)

end SensorTable

section Skipped

/-- A device without a name, at which a discovery does not look. -/
def SensorDevice.nameless : SensorDevice := ⟨none, none, false, fun _ ↦ 0, nofun⟩

variable (cfg)

/-- The devices with those made nameless that are skipped at some stage. -/
def withoutSkipped (devices : List SensorDevice) : List SensorDevice :=
  devices.map fun dev ↦
    if (SensorTable.keep cfg (dev, 0)).isSome then dev else SensorDevice.nameless

theorem isSome_keep (dev : SensorDevice) (i : ℕ) :
    (SensorTable.keep cfg (dev, i)).isSome = (SensorTable.keep cfg (dev, 0)).isSome := by
  unfold SensorTable.keep
  dsimp only
  split
  next => rfl
  next =>
    split
    next => rfl
    next => rfl

theorem keptSensors_withoutSkipped (devices : List SensorDevice) :
    SensorTable.keptSensors cfg (withoutSkipped cfg devices) =
      SensorTable.keptSensors cfg devices := by
  rw [SensorTable.keptSensors, withoutSkipped, List.zipIdx_map, LimitedScan.found,
    List.filterMap_map, SensorTable.keptSensors, LimitedScan.found]
  congr 1
  apply List.filterMap_congr
  rintro ⟨dev, i⟩ -
  dsimp only [Function.comp_apply, Prod.map_apply, id]
  split
  next => rfl
  next hskipped =>
    rw [← isSome_keep cfg dev i, Bool.not_eq_true, Option.isSome_eq_false_iff,
      Option.isNone_iff_eq_none] at hskipped
    rw [hskipped]
    rfl

end Skipped

/-- A call that writes the table. -/
inductive SensorsCall
  | init
  | discover (devices : Option (List SensorDevice))

def SensorTable.perform (t : SensorTable cfg) : SensorsCall → SensorTable cfg
  | .init => t.ocreSensorsInit.2
  | .discover devices => (t.ocreSensorsDiscover devices).2

/-- A slot that holds a device of the list. -/
structure Describes (i : ℕ) (sensor : OcreSensorInternal cfg) (k : ℕ) (dev : SensorDevice) :
    Prop where
  inUse : sensor.inUse = true
  handle : sensor.info.handle = i
  device : sensor.device = some k
  name : ∃ name, dev.name = some name ∧ name ∈ cfg.sensorDiscoveryNames ∧
    sensor.name = name.take (maxSensorNameLength - 1)
  terminated : sensor.info.sensorName.getLast? = some 0
  channels_pos : 1 ≤ sensor.info.numChannels
  channels_le : sensor.info.numChannels ≤ cfg.maxChannelsPerSensor
  increasing : (sensor.info.channels.take sensor.info.numChannels.toNat).Pairwise (· < ·)
  answered : ∀ channel ∈ sensor.info.channels.take sensor.info.numChannels.toNat,
    channel < cfg.chanAll ∧ dev.opens cfg channel = true

/-- The table after a discovery. -/
structure Discovered (devices : Option (List SensorDevice)) (t : SensorTable cfg) : Prop where
  sensorCount_le : t.sensorCount ≤ cfg.maxSensors
  /-- The sensors that count are distinct devices, in their order. -/
  entries : ∃ places : List ℕ, places.length = t.sensorCount ∧ places.Pairwise (· < ·) ∧
    ∀ i < t.sensorCount, ∃ sensor k dev, t.sensors[i]? = some sensor ∧ places[i]? = some k ∧
      (devices.getD [])[k]? = some dev ∧ Describes i sensor k dev
  /-- The devices that are skipped might as well not have a name. -/
  hidden : ∀ u : SensorTable cfg, ∀ calls q, t.answer calls q =
    (u.ocreSensorsDiscover (devices.map (withoutSkipped cfg))).2.answer calls q
  defined : ∀ calls q, (t.answer calls q).isSome
  idRefused : ∀ calls q id, SensorQuery.id q = some id → id < 0 ∨ id ≥ t.sensorCount →
    ∃ a, t.answer calls q = some a ∧ a.IsError
  channelRefused : ∀ id channelIndex, (∀ sensor, t.sensorAt id = some sensor →
    channelIndex < 0 ∨ channelIndex ≥ sensor.info.numChannels) →
      t.ocreSensorsGetChannelType id channelIndex < 0

theorem describes_of_mem {devices : List SensorDevice} {i : ℕ} {sensor : OcreSensorInternal cfg}
    (hlisted : sensor.Listed i)
    (hmem : sensor.view ∈ SensorTable.keptSensors cfg devices) :
    ∃ k dev, sensor.view.device = some k ∧ devices[k]? = some dev ∧
      Describes i sensor k dev := by
  obtain ⟨⟨dev, k⟩, hdev, hkeep⟩ := LimitedScan.exists_of_mem_found hmem
  rw [List.mem_zipIdx_iff_getElem?] at hdev
  unfold SensorTable.keep at hkeep
  dsimp only at hkeep
  split at hkeep
  next => cases hkeep
  next name hname =>
  obtain ⟨⟨hnames, -, -, hchannels⟩, hview⟩ := Option.ite_none_right_eq_some.mp hkeep
  have hopened : sensor.info.channels.take sensor.info.numChannels.toNat =
      dev.openedChannels cfg := (congrArg SensorView.channels (Option.some.inj hview)).symm
  have hcount := hlisted.numChannels
  have hlength := List.length_pos_iff.mpr hchannels
  change _ = ((sensor.info.channels.take sensor.info.numChannels.toNat).length : Int) at hcount
  rw [hopened] at hcount
  have hdevice := (congrArg SensorView.device (Option.some.inj hview)).symm
  refine ⟨k, dev, hdevice, hdev, hlisted.inUse, hlisted.handle, hdevice, ⟨name, hname,
    SensorConfig.lists_iff.mp hnames,
    (congrArg SensorView.name (Option.some.inj hview)).symm⟩, hlisted.terminated, by omega,
    sensor.info.numChannels_le, ?_, ?_⟩
  · rw [hopened]
    exact dev.pairwise_openedChannels
  · rw [hopened]
    exact fun channel ↦ dev.opens_of_mem

theorem pairwise_keptSensors (devices : List SensorDevice) :
    (SensorTable.keptSensors cfg devices).Pairwise fun view view' ↦
      view.device.getD 0 < view'.device.getD 0 := by
  have hplaces : devices.zipIdx.Pairwise fun device device' ↦ device.2 < device'.2 := by
    rw [← List.pairwise_map, List.zipIdx_map_snd]
    exact List.pairwise_lt_range'
  refine LimitedScan.pairwise_found hplaces ?_
  have hdevice (device : SensorDevice × ℕ) (view : SensorView)
      (h : SensorTable.keep cfg device = some view) : view.device = some device.2 := by
    unfold SensorTable.keep at h
    split at h
    next => cases h
    next =>
      obtain ⟨-, hview⟩ := Option.ite_none_right_eq_some.mp h
      exact (congrArg SensorView.device (Option.some.inj hview)).symm
  intro device view device' view' h h' hlt
  rwa [hdevice _ _ h, hdevice _ _ h']

theorem discovered_of_run (calls : List SensorsCall) (devices : Option (List SensorDevice)) :
    Discovered devices
      ((calls.foldl SensorTable.perform (.zero cfg)).ocreSensorsDiscover devices).2 := by
  generalize calls.foldl SensorTable.perform (.zero cfg) = s
  obtain ⟨hsound, hvisible⟩ := SensorTable.ocreSensorsDiscover_spec devices s
  generalize (s.ocreSensorsDiscover devices).2 = t at *
  refine ⟨t.sensorCount_le, ?_, ?_, SensorTable.isSome_answer hsound,
    fun calls q id hq hid ↦ t.isError_answer calls hq hid, fun id channelIndex h ↦ ?_⟩
  · refine ⟨t.visible.map fun view ↦ view.device.getD 0, ?_, ?_, fun i hi ↦ ?_⟩
    · rw [List.length_map, t.length_visible]
    · rw [hvisible, List.pairwise_map]
      exact pairwise_keptSensors _
    · obtain ⟨sensor, -, hsensor, hlisted, hview⟩ := SensorTable.exists_sensorAt hsound hi
      have hmem : sensor.view ∈ SensorTable.keptSensors cfg (devices.getD []) :=
        hvisible ▸ List.mem_of_getElem? hview
      obtain ⟨k, dev, hdevice, hdev, hdescribes⟩ := describes_of_mem hlisted hmem
      refine ⟨sensor, k, dev, hsensor, ?_, hdev, hdescribes⟩
      rw [List.getElem?_map, hview, Option.map_some, hdevice, Option.getD_some]
  · intro u calls q
    obtain ⟨hsound', hvisible'⟩ :=
      SensorTable.ocreSensorsDiscover_spec (devices.map (withoutSkipped cfg)) u
    refine SensorTable.answer_congr hsound hsound' ?_ calls q
    rw [hvisible, hvisible']
    cases devices with
    | none => rfl
    | some devices => exact (keptSensors_withoutSkipped cfg devices).symm
  · rw [t.ocreSensorsGetChannelType_of_outside h]
    decide

end OcreRuntime
