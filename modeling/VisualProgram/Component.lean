import VisualProgram.Json.Basic

/-!
# Component classes

A component type is served by a class of the engine's library, with entries that its configuration
has by default.  `Component.table` lists the types known from the start.
-/

namespace VisualProgram

structure ComponentClass where
  name : String
  /-- what a node that does not set it gets -/
  defaults : List (String × Json)
deriving DecidableEq

namespace Component

def broker : List (String × Json) :=
  [("broker_host", .string "localhost"), ("broker_port", .number (.whole 1883 (by decide)))]

def mockDevice : ComponentClass :=
  ⟨"MockDeviceComponent",
    broker ++ [("topic", .string "sensors/mock"), ("wave_type", .string "sine"),
      ("interval_ms", .number (.whole 1000 (by decide)))]⟩

def subscriber : ComponentClass :=
  ⟨"MQTTSubscriberComponent", broker ++ [("topic", .string "sensors/#")]⟩

def publisher : ComponentClass :=
  ⟨"MQTTPublisherComponent", broker ++ [("topic", .string "output/data")]⟩

def mathOperation : ComponentClass :=
  ⟨"MathOperationComponent",
    [("operation", .string "scale"), ("scale", .ofFloat 1.0),
     ("offset", .number (.whole 0 Number.fits_zero))]⟩

def csvStorage : ComponentClass :=
  ⟨"CSVStorageComponent",
    [("file_path", .string "./data/output.csv"), ("include_timestamp", .bool true)]⟩

def table : List (String × ComponentClass) :=
  [("mock_device", mockDevice),
   ("mqtt_subscribe", subscriber),
   ("mqtt_publish", publisher),
   ("math", mathOperation),
   ("scale", mathOperation),
   ("compare", ⟨"CompareComponent", []⟩),
   ("threshold_alarm", ⟨"ThresholdAlarmComponent", []⟩),
   ("custom_script", ⟨"CustomScriptComponent", []⟩),
   ("csv_write", csvStorage),
   ("csv_storage", csvStorage),
   ("debug_print", ⟨"DebugPrintComponent", []⟩),
   ("timer", ⟨"TimerComponent", []⟩),
   ("conditional", ⟨"ConditionalComponent", []⟩),
   ("global_variable", ⟨"GlobalVariableComponent", []⟩),
   ("data_probe", ⟨"DataProbeComponent", []⟩)]

end Component

end VisualProgram
