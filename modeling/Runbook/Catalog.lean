import Runbook.Decimal.Literal
import Runbook.Definition

/-!
# Built-in workflows

The workflows that every registry offers.
-/

namespace Runbook
namespace Catalog

/-- A variable without default that need not be supplied unless `required` says so. -/
def plainVariable (description : String) (required : Bool) : Variable :=
  ⟨description, .string, none, some required⟩

/-- A step that stops the run when it fails. -/
def stoppingStep (id name tool : String) (parameters : Table String Value) : Step :=
  ⟨id, name, tool, parameters, none, none, some .stop⟩

/-- The condition under which dashboards and objectives are created. -/
def hasApmData : String := "steps.summarize.output.has_apm_data == true"

/-- A step that runs if there is data, and after whose failure the run goes on. -/
def creatingStep (id name tool : String) (parameters : Table String Value) : Step :=
  ⟨id, name, tool, parameters, some (some hasApmData), none, some .continue⟩

/-- A workflow of version 1.0.0. -/
def firstVersion (name description : String) (declarations : Table String Variable)
    (steps : List Step) : Definition :=
  ⟨name, description, some (some "1.0.0"), some declarations, steps⟩

/-- The placeholder of the supplied service name. -/
def serviceName : Value := .str "$\x7bvariables.service_name\x7d"

/-- The placeholder of the main service found in the data. -/
def primaryService : Value := .str "$\x7bsteps.summarize.output.primary_service\x7d"

/-- The number 99.9. -/
def threeNines : Value := .float (Decimal.toBinary64 false ⟨999, -1⟩)

/-- Discovery, dashboards and objectives in one. -/
def fullSetup : Definition :=
  firstVersion "full-o11y-setup"
    ("End-to-end observability setup: discover data, generate dashboards for each " ++
      "recommended service, and create SLOs.")
    [("cluster_url", plainVariable "Elasticsearch cluster URL" false),
      ("kibana_url", plainVariable "Kibana URL for dashboard and SLO creation" false)]
    [stoppingStep "discover" "Discover observability data" "discover_o11y_data" [],
      stoppingStep "summarize" "Summarize discovered data" "get_data_summary"
        [("format", .str "json")],
      creatingStep "create_dashboards" "Create recommended dashboards" "create_dashboard"
        [("title", .str "O11y Overview Dashboard"), ("service_name", primaryService)],
      creatingStep "create_slos" "Create recommended SLOs" "create_slo"
        [("service_name", primaryService), ("slo_type", .str "availability"),
          ("target", threeNines)]]

/-- A dashboard for one service. -/
def serviceDashboard : Definition :=
  firstVersion "service-dashboard"
    ("Create a service-specific overview dashboard: discover data for the service, " ++
      "summarize, and generate a dashboard.")
    [("service_name", plainVariable "APM service name to scope the dashboard to" true)]
    [stoppingStep "discover" "Discover service data" "discover_o11y_data"
        [("service_name", serviceName)],
      stoppingStep "summarize" "Summarize service data" "get_data_summary"
        [("service_name", serviceName)],
      stoppingStep "create_dashboard" "Create service overview dashboard" "create_dashboard"
        [("title", .str "$\x7bvariables.service_name\x7d - Service Overview"),
          ("service_name", serviceName)]]

/-- An objective from the data of a service. -/
def sloFromApm : Definition :=
  firstVersion "slo-from-apm"
    "Discover APM data, summarize recommended SLOs, and create them."
    [("service_name", plainVariable "Optional APM service name to scope SLO creation" false),
      ("target", ⟨"SLO target percentage", .number, some threeNines, none⟩)]
    [stoppingStep "discover" "Discover APM data" "discover_o11y_data"
        [("service_name", serviceName)],
      stoppingStep "summarize" "Summarize SLO recommendations" "get_data_summary"
        [("format", .str "json"), ("service_name", serviceName)],
      creatingStep "create_slo" "Create availability SLO" "create_slo"
        [("service_name", serviceName), ("slo_type", .str "availability"),
          ("target", .str "$\x7bvariables.target\x7d")]]

/-- A dashboard for hosts, containers and pods. -/
def infrastructureOverview : Definition :=
  firstVersion "infrastructure-overview"
    ("Discover infrastructure metrics and create a health dashboard covering hosts, " ++
      "containers, and pods.")
    [("index_pattern",
      ⟨"Metrics index pattern to query", .string, some (.str "metrics-*"), none⟩)]
    [stoppingStep "discover" "Discover infrastructure data" "discover_o11y_data" [],
      stoppingStep "summarize" "Summarize infrastructure data" "get_data_summary" [],
      stoppingStep "create_dashboard" "Create infrastructure health dashboard" "create_dashboard"
        [("title", .str "Infrastructure Health Overview"),
          ("index_pattern", .str "$\x7bvariables.index_pattern\x7d")]]

/-- The built-in workflows, in order. -/
def builtIns : List Definition :=
  [fullSetup, serviceDashboard, sloFromApm, infrastructureOverview]

end Catalog
end Runbook
