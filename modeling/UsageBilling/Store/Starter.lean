import UsageBilling.Store.Catalog

/-!
# Starter queries

The queries that a new catalog begins with.  `Store.seed` puts in those that it lacks, valid at
all times.
-/

namespace UsageBilling

/-- A query by its texts. -/
structure StarterQuery where
  name : String
  description : String
  query : String
  unit : String
  deriving DecidableEq

namespace StarterQuery

/-- A text of whole lines. -/
def ofLines (lines : List String) : String := String.join (lines.map (· ++ "\n"))

/-- Memory per namespace, as the larger of requested and used. -/
def memoryLines : List String := [
  "# Sum values over one hour.",
  "sum_over_time(",
  "  # Add the final product label by joining the base product with the cluster ID, the tenant, and the namespace.",
  "  label_join(",
  "    # Add the category label by joining the cluster ID and the namespace.",
  "    label_join(",
  "      # Add the base product identifier.",
  "      label_replace(",
  "        # Rename the organization label to tenant.",
  "        label_replace(",
  "          clamp_min(",
  "            # Maximum of requested and used memory per namespace.",
  "            sum by(cluster_id, namespace, label_appuio_io_organization) (",
  "              max by(cluster_id, namespace, pod, container) (",
  "                kube_pod_container_resource_requests\x7bresource=\"memory\"\x7d",
  "                  or on(cluster_id, namespace, pod, container)",
  "                container_memory_working_set_bytes\x7bimage!=\"\"\x7d",
  "              )",
  "              * on(cluster_id, namespace) group_left(label_appuio_io_organization)",
  "              kube_namespace_labels\x7blabel_appuio_io_organization=~\".+\"\x7d",
  "            ),",
  "            128 * 1024 * 1024",
  "          )",
  "          # Convert to MiB",
  "          / 1024 / 1024,",
  "          \"tenant\",",
  "          \"$1\",",
  "          \"label_appuio_io_organization\", \"(.*)\"",
  "        ),",
  "        \"product\",",
  "        \"appuio_cloud_memory\",",
  "        \"product\",",
  "        \"(.*)\"",
  "      ),",
  "      \"category\",",
  "      \":\",",
  "      \"cluster_id\",",
  "      \"namespace\"",
  "    ),",
  "    \"product\",",
  "    \":\",",
  "    \"product\",",
  "    \"cluster_id\",",
  "    \"tenant\",",
  "    \"namespace\"",
  "  )[59m:1m]",
  ")"]

/-- Services of type load balancer per namespace. -/
def loadBalancerLines : List String := [
  "# Sum values over one hour.",
  "sum_over_time(",
  "  # Add the final product label by joining the base product with the cluster ID, the tenant, and the namespace.",
  "  label_join(",
  "    # Add the category label by joining the cluster ID and the namespace.",
  "    label_join(",
  "      # Add the base product identifier.",
  "      label_replace(",
  "        # Rename the organization label to tenant.",
  "        label_replace(",
  "          sum by(cluster_id, namespace, label_appuio_io_organization) (",
  "            kube_service_spec_type\x7btype=\"LoadBalancer\"\x7d",
  "            * on(cluster_id, namespace) group_left(label_appuio_io_organization)",
  "            kube_namespace_labels\x7blabel_appuio_io_organization=~\".+\"\x7d",
  "          ),",
  "          \"tenant\",",
  "          \"$1\",",
  "          \"label_appuio_io_organization\", \"(.*)\"",
  "        ),",
  "        \"product\",",
  "        \"appuio_cloud_loadbalancer\",",
  "        \"product\",",
  "        \"(.*)\"",
  "      ),",
  "      \"category\",",
  "      \":\",",
  "      \"cluster_id\",",
  "      \"namespace\"",
  "    ),",
  "    \"product\",",
  "    \":\",",
  "    \"product\",",
  "    \"cluster_id\",",
  "    \"tenant\",",
  "    \"namespace\"",
  "  )[59m:1m]",
  ")"]

/-- Persistent storage per namespace and storage class. -/
def storageLines : List String := [
  "# Sum values over one hour.",
  "sum_over_time(",
  "  # Add the final product label by joining the base product with the cluster ID, the tenant, the namespace, and the storage class.",
  "  label_join(",
  "    # Add the category label by joining the cluster ID and the namespace.",
  "    label_join(",
  "      # Add the base product identifier.",
  "      label_replace(",
  "        # Rename the organization label to tenant.",
  "        label_replace(",
  "          clamp_min(",
  "            sum by(cluster_id, namespace, storageclass, label_appuio_io_organization) (",
  "              kube_persistentvolumeclaim_resource_requests_storage_bytes",
  "              * on(cluster_id, namespace, persistentvolumeclaim) group_left(storageclass)",
  "              kube_persistentvolumeclaim_info",
  "              * on(cluster_id, namespace) group_left(label_appuio_io_organization)",
  "              kube_namespace_labels\x7blabel_appuio_io_organization=~\".+\"\x7d",
  "            ),",
  "            1024 * 1024 * 1024",
  "          )",
  "          # Convert to GiB",
  "          / 1024 / 1024 / 1024,",
  "          \"tenant\",",
  "          \"$1\",",
  "          \"label_appuio_io_organization\", \"(.*)\"",
  "        ),",
  "        \"product\",",
  "        \"appuio_cloud_persistent_storage\",",
  "        \"product\",",
  "        \"(.*)\"",
  "      ),",
  "      \"category\",",
  "      \":\",",
  "      \"cluster_id\",",
  "      \"namespace\"",
  "    ),",
  "    \"product\",",
  "    \":\",",
  "    \"product\",",
  "    \"cluster_id\",",
  "    \"tenant\",",
  "    \"namespace\",",
  "    \"storageclass\"",
  "  )[59m:1m]",
  ")"]

/-- All starter queries, in the order they are put in. -/
def all : List StarterQuery := [
  { name := "appuio_cloud_memory"
    description := "Memory usage (maximum of requested and used memory) aggregated by namespace"
    query := ofLines memoryLines
    unit := "MiB" },
  { name := "appuio_cloud_loadbalancer"
    description := "Number of services of type load balancer"
    query := ofLines loadBalancerLines
    unit := "" },
  { name := "appuio_cloud_persistent_storage"
    description := "Persistent storage usage aggregated by namespace and storageclass"
    query := ofLines storageLines
    unit := "GiB" }]

/-- The query to be stored: a main query that is valid at all times. -/
def toNewQuery (q : StarterQuery) : NewQuery :=
  ⟨none, q.name, q.description, q.query, q.unit, .unbounded⟩

end StarterQuery

namespace Store

variable {σ : Type}

/-- Put in the queries whose names are new: their names. -/
def seedEach : List StarterQuery → Session σ (List String)
  | [] => pure []
  | q :: rest => do
    if ← queryExists q.name then seedEach rest
    else
      let _ ← createQuery q.toNewQuery
      let created ← seedEach rest
      pure (q.name :: created)

/-- Put in the starter queries that the catalog lacks: their names. -/
def seed : Session σ (List String) := seedEach StarterQuery.all

end Store

end UsageBilling
