import OcreRuntime.Lib.LimitedScan
import OcreRuntime.OcreApi.Gpio

/-!
# The sensor functions

The sensor table of `ocre_sensors.c` and the functions on it. A discovery writes a device into
the next slot before it asks the driver for its channels, and the slot counts only if there are
some. The sizes of the arrays are fields of their structures, so that every write is inside.
Log texts are left out, and with them what `sensor_sample_fetch` returns in a discovery.
-/

namespace OcreRuntime

/-- The configuration constants, the enumerators of Zephyr's `enum sensor_channel` that the
source names, and the labels in the device tree, `sensor_discovery_names`. -/
structure SensorConfig where
  maxSensors : ℕ
  maxChannelsPerSensor : ℕ
  chanAll : ℕ
  chanAccelXyz : ℕ
  chanGyroXyz : ℕ
  chanMagnXyz : ℕ
  chanPosDxyz : ℕ
  sensorDiscoveryNames : List CString

/-- The loop that compares a name with the labels. -/
def SensorConfig.lists (cfg : SensorConfig) (name : CString) : Bool :=
  cfg.sensorDiscoveryNames.any fun label ↦ name = label

theorem SensorConfig.lists_iff {cfg : SensorConfig} {name : CString} :
    cfg.lists name = true ↔ name ∈ cfg.sensorDiscoveryNames := by
  simp [lists]

def maxSensorNameLength : ℕ := 125

/-- A static device, with what the calls on it return during one discovery. `api` says
whether its `channel_get` is there. -/
structure SensorDevice where
  name : Option CString
  api : Option Bool
  ready : Bool
  channelGet : ℕ → Int
  noNul : ∀ s ∈ name, 0 ∉ s

/-- `ocre_sensor_t`. -/
structure OcreSensor (cfg : SensorConfig) where
  handle : Int
  sensorName : List UInt8
  numChannels : Int
  channels : List ℕ
  length_sensorName : sensorName.length = maxSensorNameLength
  length_channels : channels.length = cfg.maxChannelsPerSensor
  numChannels_le : numChannels ≤ cfg.maxChannelsPerSensor

/-- `ocre_sensor_internal_t`; a device is known by its index in the list of devices. -/
structure OcreSensorInternal (cfg : SensorConfig) where
  device : Option ℕ
  info : OcreSensor cfg
  inUse : Bool

/-- `sensors` and `sensor_count`. -/
structure SensorTable (cfg : SensorConfig) where
  sensors : List (OcreSensorInternal cfg)
  sensorCount : ℕ
  length_sensors : sensors.length = cfg.maxSensors
  sensorCount_le : sensorCount ≤ cfg.maxSensors

/-- What `strncpy` leaves in a buffer. -/
def strncpy (dst : List UInt8) (src : CString) (n : ℕ) : List UInt8 :=
  src.take n ++ List.replicate (n - src.length) 0 ++ dst.drop n

theorem length_strncpy {dst : List UInt8} {n : ℕ} (src : CString) (h : n ≤ dst.length) :
    (strncpy dst src n).length = dst.length := by
  simp only [strncpy, List.length_append, List.length_take, List.length_replicate,
    List.length_drop]
  omega

variable {cfg : SensorConfig}

def OcreSensor.zero (cfg : SensorConfig) : OcreSensor cfg where
  handle := 0
  sensorName := List.replicate maxSensorNameLength 0
  numChannels := 0
  channels := List.replicate cfg.maxChannelsPerSensor 0
  length_sensorName := List.length_replicate
  length_channels := List.length_replicate
  numChannels_le := Int.natCast_nonneg _

theorem OcreSensor.lt_length_channels (sensor : OcreSensor cfg) {k : ℕ}
    (h : k < sensor.numChannels) : k < sensor.channels.length := by
  have hle := sensor.numChannels_le
  rw [sensor.length_channels]
  omega

/-- The table as after `memset`. -/
def SensorTable.zero (cfg : SensorConfig) : SensorTable cfg where
  sensors := List.replicate cfg.maxSensors ⟨none, .zero cfg, false⟩
  sensorCount := 0
  length_sensors := List.length_replicate
  sensorCount_le := Nat.zero_le _

namespace SensorDevice

variable (cfg) (dev : SensorDevice)

/-- The channel is not a combined one, and the driver answers for it. -/
def opens (channel : ℕ) : Bool :=
  channel ≠ cfg.chanAccelXyz ∧ channel ≠ cfg.chanGyroXyz ∧ channel ≠ cfg.chanMagnXyz ∧
    channel ≠ cfg.chanPosDxyz ∧ dev.channelGet channel = 0

/-- One channel in `set_opened_channels`, on `count` and `channels`. -/
def openChannel (channel : ℕ) (s : ℕ × List ℕ) : ℕ × List ℕ :=
  if dev.opens cfg channel then (s.1 + 1, s.2.set s.1 channel) else s

def setOpenedChannels (channels : List ℕ) : Int × List ℕ :=
  if ¬ dev.ready then (-19, channels)
  else
    let s := LimitedScan.scan (dev.openChannel cfg) Prod.fst cfg.maxChannelsPerSensor
      (List.range cfg.chanAll) (0, channels)
    (s.1, s.2)

/-- The channels that a sensor has. -/
def openedChannels : List ℕ :=
  LimitedScan.found (Option.guard (dev.opens cfg)) cfg.maxChannelsPerSensor
    (List.range cfg.chanAll)

variable {cfg}

theorem pairwise_openedChannels : (dev.openedChannels cfg).Pairwise (· < ·) := by
  refine LimitedScan.pairwise_found List.pairwise_lt_range ?_
  intro a b a' b' hb hb' hlt
  obtain ⟨rfl, -⟩ := Option.guard_eq_some_iff.mp hb
  obtain ⟨rfl, -⟩ := Option.guard_eq_some_iff.mp hb'
  exact hlt

theorem opens_of_mem {channel : ℕ} (h : channel ∈ dev.openedChannels cfg) :
    channel < cfg.chanAll ∧ dev.opens cfg channel = true := by
  obtain ⟨a, ha, hguard⟩ := LimitedScan.exists_of_mem_found h
  obtain ⟨rfl, hopens⟩ := Option.guard_eq_some_iff.mp hguard
  exact ⟨List.mem_range.mp ha, hopens⟩

theorem adds_openChannel : LimitedScan.Adds (dev.openChannel cfg) Prod.fst
    cfg.maxChannelsPerSensor (Option.guard (dev.opens cfg)) (fun s ↦ s.2.take s.1)
    (fun s ↦ s.2.length = cfg.maxChannelsPerSensor ∧ s.1 ≤ cfg.maxChannelsPerSensor) where
  counts s h := by simp [h.1, h.2]
  keeps channel s h hlt := by
    rw [openChannel]
    split
    next => exact ⟨by simpa using h.1, hlt⟩
    next => exact h
  adds channel s h hlt := by
    rw [openChannel]
    cases hopens : dev.opens cfg channel with
    | false => simp [Option.guard, hopens]
    | true =>
        simp only [if_true, Option.guard, hopens, Option.toList_some]
        exact LimitedScan.take_succ_set (h.1 ▸ hlt)

/-- What `set_opened_channels` returns and leaves in the array. -/
structure OpensChannels (cfg : SensorConfig) (dev : SensorDevice) (r : Int × List ℕ) : Prop where
  length : r.2.length = cfg.maxChannelsPerSensor
  notReady : dev.ready = false → r.1 = -19
  count : dev.ready = true → r.1 = (dev.openedChannels cfg).length
  channels : dev.ready = true → r.2.take r.1.toNat = dev.openedChannels cfg

theorem setOpenedChannels_spec {channels : List ℕ}
    (h : channels.length = cfg.maxChannelsPerSensor) :
    OpensChannels cfg dev (dev.setOpenedChannels cfg channels) := by
  obtain ⟨⟨hlength, hle⟩, hview⟩ := dev.adds_openChannel.scan (List.range cfg.chanAll)
    (0, channels) ⟨h, Nat.zero_le _⟩ (by simp)
  have hopened : (LimitedScan.scan (dev.openChannel cfg) Prod.fst cfg.maxChannelsPerSensor
      (List.range cfg.chanAll) (0, channels)).2.take
        (LimitedScan.scan (dev.openChannel cfg) Prod.fst cfg.maxChannelsPerSensor
          (List.range cfg.chanAll) (0, channels)).1 = dev.openedChannels cfg := by
    simpa [openedChannels] using hview
  have hcount := congrArg List.length hopened
  rw [List.length_take, hlength, Nat.min_eq_left hle] at hcount
  rw [setOpenedChannels]
  cases hready : dev.ready with
  | false => exact ⟨h, fun _ ↦ rfl, by simp [hready], by simp [hready]⟩
  | true =>
      exact ⟨hlength, by simp [hready], fun _ ↦ congrArg Nat.cast hcount, fun _ ↦ hopened⟩

theorem OpensChannels.count_le {r : Int × List ℕ} (h : OpensChannels cfg dev r) :
    r.1 ≤ cfg.maxChannelsPerSensor := by
  cases hready : dev.ready with
  | false =>
      rw [h.notReady hready]
      omega
  | true =>
      rw [h.count hready]
      exact Int.ofNat_le.mpr (LimitedScan.length_found_le _ _ _)

end SensorDevice

namespace SensorTable

/-- A device written into a slot, with what `set_opened_channels` returns for it. -/
def fill (dev : SensorDevice) (i : ℕ) (name : CString) (count : ℕ)
    (sensor : OcreSensorInternal cfg) : OcreSensorInternal cfg where
  device := some i
  inUse := true
  info :=
    { handle := count
      sensorName :=
        (strncpy sensor.info.sensorName name (maxSensorNameLength - 1)).set
          (maxSensorNameLength - 1) 0
      numChannels := (dev.setOpenedChannels cfg sensor.info.channels).1
      channels := (dev.setOpenedChannels cfg sensor.info.channels).2
      length_sensorName := by
        rw [List.length_set, length_strncpy _ (by simp [sensor.info.length_sensorName]),
          sensor.info.length_sensorName]
      length_channels := (dev.setOpenedChannels_spec sensor.info.length_channels).length
      numChannels_le := (dev.setOpenedChannels_spec sensor.info.length_channels).count_le }

/-- The body of the loop over the devices. -/
def discoverDevice (device : SensorDevice × ℕ) (t : SensorTable cfg) : SensorTable cfg :=
  match device.1.name with
  | none => t
  | some name =>
      if ¬ cfg.lists name then t
      else if device.1.api ≠ some true then t
      else if h : t.sensorCount ≥ cfg.maxSensors then t
      else
        let sensor := t.sensors.get ⟨t.sensorCount, by rw [t.length_sensors]; omega⟩
        let filled := fill device.1 device.2 name t.sensorCount sensor
        if filled.info.numChannels ≤ 0 then
          { t with
            sensors := t.sensors.set t.sensorCount filled
            length_sensors := by rw [List.length_set, t.length_sensors] }
        else
          { sensors := t.sensors.set t.sensorCount filled
            sensorCount := t.sensorCount + 1
            length_sensors := by rw [List.length_set, t.length_sensors]
            sensorCount_le := by omega }

/-- `ocre_sensors_init`. -/
def ocreSensorsInit (_ : SensorTable cfg) : Int × SensorTable cfg := (0, zero cfg)

/-- `ocre_sensors_discover`, with the devices that `z_device_get_all_static` returns. -/
def ocreSensorsDiscover (devices : Option (List SensorDevice)) (_ : SensorTable cfg) :
    Int × SensorTable cfg :=
  match devices with
  | none => (-22, zero cfg)
  | some [] => (-19, zero cfg)
  | some devices =>
      let t := LimitedScan.scan discoverDevice sensorCount cfg.maxSensors devices.zipIdx (zero cfg)
      (t.sensorCount, t)

end SensorTable

/-- The string in `sensor_name`. -/
def OcreSensorInternal.name (sensor : OcreSensorInternal cfg) : CString :=
  sensor.info.sensorName.takeWhile (· ≠ 0)

/-- `struct sensor_value`. -/
structure SensorValue where
  val1 : Int
  val2 : Int
  deriving DecidableEq

/-- The `double` that `ocre_sensors_read` returns: an error code, or what
`sensor_value_to_double` makes of a value. -/
inductive SensorReading
  | error (code : Int)
  | value (v : SensorValue)
  deriving DecidableEq

/-- What the calls on a device return by now. -/
structure DeviceCalls where
  ready : Option ℕ → Bool
  sampleFetch : Option ℕ → Int
  channelGet : Option ℕ → Int → Int × SensorValue

namespace SensorTable

section Queries

variable (calls : DeviceCalls) (t : SensorTable cfg)

/-- The sensor of an ID, with the check by which the functions by ID begin. -/
def sensorAt (id : Int) : Option (OcreSensorInternal cfg) :=
  if h : id < 0 ∨ id ≥ t.sensorCount then none
  else
    let sensor := t.sensors.get ⟨id.toNat, by
      have hle := t.sensorCount_le
      rw [t.length_sensors]
      omega⟩
    if ¬ sensor.inUse then none else some sensor

def ocreSensorsOpen (handle : Int) : Int :=
  match t.sensorAt handle with
  | none => -22
  | some sensor => if ¬ calls.ready sensor.device then -19 else 0

def ocreSensorsGetHandle (id : Int) : Int :=
  match t.sensorAt id with
  | none => -22
  | some sensor => sensor.info.handle

/-- `ocre_sensors_get_name`, with the buffer that it leaves. -/
def ocreSensorsGetName (id : Int) (buffer : Option (List UInt8)) (bufferSize : Int) :
    Int × Option (List UInt8) :=
  match t.sensorAt id, buffer with
  | some sensor, some buffer =>
      let nameLen := sensor.name.length
      if nameLen ≥ bufferSize then (-28, some buffer)
      else
        (nameLen, some ((strncpy buffer sensor.name (bufferSize - 1).toNat).set
          (bufferSize - 1).toNat 0))
  | _, buffer => (-22, buffer)

def ocreSensorsGetChannelCount (id : Int) : Int :=
  match t.sensorAt id with
  | none => -22
  | some sensor => sensor.info.numChannels

def ocreSensorsGetChannelType (id channelIndex : Int) : Int :=
  match t.sensorAt id with
  | none => -22
  | some sensor =>
      if h : channelIndex < 0 ∨ channelIndex ≥ sensor.info.numChannels then -22
      else sensor.info.channels.get
        ⟨channelIndex.toNat, sensor.info.lt_length_channels (by omega)⟩

def ocreSensorsRead (id channelType : Int) : SensorReading :=
  match t.sensorAt id with
  | none => .error (-22)
  | some sensor =>
      if calls.sampleFetch sensor.device < 0 then .error (-5)
      else
        let r := calls.channelGet sensor.device channelType
        if r.1 < 0 then .error (-5) else .value r.2

def findSensorByName (name : Option CString) : Int :=
  match name with
  | none => -22
  | some name =>
      match (t.sensors.take t.sensorCount).findIdx? fun sensor ↦
          sensor.inUse ∧ sensor.name = name with
      | some i => i
      | none => -2

/-- The functions by name, each with the function by ID that it goes on to. -/
def byName {α : Type} (notFound : α) (k : Int → α) (name : Option CString) : α :=
  let id := t.findSensorByName name
  if id < 0 then notFound else k id

def ocreSensorsOpenByName (name : Option CString) : Int :=
  t.byName (-2) (t.ocreSensorsOpen calls) name

/-- The function reads the array without a check of its own. -/
def ocreSensorsGetHandleByName (name : Option CString) : Option Int :=
  t.byName (some (-2)) (fun id ↦ (elementAt t.sensors id).map (·.info.handle)) name

def ocreSensorsGetChannelCountByName (name : Option CString) : Option Int :=
  t.byName (some (-2)) (fun id ↦ (elementAt t.sensors id).map (·.info.numChannels)) name

def ocreSensorsGetChannelTypeByName (name : Option CString) (channelIndex : Int) : Int :=
  t.byName (-2) (t.ocreSensorsGetChannelType · channelIndex) name

def ocreSensorsReadByName (name : Option CString) (channelType : Int) : SensorReading :=
  t.byName (.error (-2)) (t.ocreSensorsRead calls · channelType) name

/-- `ocre_sensors_get_list`, with the strings to which the pointers lead. -/
def ocreSensorsGetList (nameList : Bool) (maxNames : Int) : Int × List CString :=
  if ¬ nameList ∨ maxNames ≤ 0 then (-22, [])
  else
    let names := LimitedScan.found
      (fun sensor : OcreSensorInternal cfg ↦ if sensor.inUse then some sensor.name else none)
      maxNames.toNat (t.sensors.take t.sensorCount)
    (names.length, names)

end Queries

end SensorTable

/-- A call of a function that asks for sensors. -/
inductive SensorQuery
  | ocreSensorsOpen (handle : Int)
  | ocreSensorsGetHandle (id : Int)
  | ocreSensorsGetName (id : Int) (buffer : Option (List UInt8)) (bufferSize : Int)
  | ocreSensorsGetChannelCount (id : Int)
  | ocreSensorsGetChannelType (id channelIndex : Int)
  | ocreSensorsRead (id channelType : Int)
  | ocreSensorsOpenByName (name : Option CString)
  | ocreSensorsGetHandleByName (name : Option CString)
  | ocreSensorsGetChannelCountByName (name : Option CString)
  | ocreSensorsGetChannelTypeByName (name : Option CString) (channelIndex : Int)
  | ocreSensorsReadByName (name : Option CString) (channelType : Int)
  | ocreSensorsGetList (nameList : Bool) (maxNames : Int)

inductive SensorAnswer
  | int (ret : Int)
  | name (ret : Int) (buffer : Option (List UInt8))
  | reading (r : SensorReading)
  | list (ret : Int) (names : List CString)
  deriving DecidableEq

/-- An error code has been returned. -/
def SensorAnswer.IsError : SensorAnswer → Prop
  | int ret | name ret _ | list ret _ => ret < 0
  | reading (.error code) => code < 0
  | reading (.value _) => False

def SensorQuery.id : SensorQuery → Option Int
  | ocreSensorsOpen id | ocreSensorsGetHandle id | ocreSensorsGetName id _ _
  | ocreSensorsGetChannelCount id | ocreSensorsGetChannelType id _ | ocreSensorsRead id _ => some id
  | _ => none

namespace SensorTable

/-- The answer, if no array is read outside. -/
def answer (calls : DeviceCalls) (t : SensorTable cfg) : SensorQuery → Option SensorAnswer
  | .ocreSensorsOpen handle => some (.int (t.ocreSensorsOpen calls handle))
  | .ocreSensorsGetHandle id => some (.int (t.ocreSensorsGetHandle id))
  | .ocreSensorsGetName id buffer bufferSize =>
      let r := t.ocreSensorsGetName id buffer bufferSize
      some (.name r.1 r.2)
  | .ocreSensorsGetChannelCount id => some (.int (t.ocreSensorsGetChannelCount id))
  | .ocreSensorsGetChannelType id channelIndex =>
      some (.int (t.ocreSensorsGetChannelType id channelIndex))
  | .ocreSensorsRead id channelType => some (.reading (t.ocreSensorsRead calls id channelType))
  | .ocreSensorsOpenByName name => some (.int (t.ocreSensorsOpenByName calls name))
  | .ocreSensorsGetHandleByName name => (t.ocreSensorsGetHandleByName name).map .int
  | .ocreSensorsGetChannelCountByName name =>
      (t.ocreSensorsGetChannelCountByName name).map .int
  | .ocreSensorsGetChannelTypeByName name channelIndex =>
      some (.int (t.ocreSensorsGetChannelTypeByName name channelIndex))
  | .ocreSensorsReadByName name channelType =>
      some (.reading (t.ocreSensorsReadByName calls name channelType))
  | .ocreSensorsGetList nameList maxNames =>
      let r := t.ocreSensorsGetList nameList maxNames
      some (.list r.1 r.2)

end SensorTable

end OcreRuntime
